import VxWorks.Lib.OnesSum
import VxWorks.Netinet.SlCompress

/-!
# The Internet checksum (`in_cksum`)

The sum of the two-octet words of a packet, over a chain of mbufs that may end
anywhere. Words are read as the machine keeps them, and only at even addresses.
An octet left over at the end of an mbuf waits for the first one of the next;
where an mbuf begins at an odd address its first octet is put aside, the words
behind it are read with their octets the wrong way round, and the sum is
exchanged before and after.

All of this is multiplying by 256 modulo 65535, and the carries that are put off
are multiples of 65535. The invariant of the loop over the mbufs is therefore
that the sum, with the octet that waits if there is one, stands for the sum of
what has been read. `in_cksum_correct` follows: the result depends only on the
octets.
-/

namespace VxWorks.Netinet

open VxWorks.Lib

/-- How the machine keeps a two-octet word. -/
inductive ByteOrder where
  | big
  | little
deriving DecidableEq

/-- The weights of the first and the second octet of a word. -/
def ByteOrder.first : ByteOrder → Nat
  | .big => 256
  | .little => 1

def ByteOrder.second : ByteOrder → Nat
  | .big => 1
  | .little => 256

/-- The word with the octets `a` and `b`. -/
def ByteOrder.short (bo : ByteOrder) (a b : UInt8) : UInt32 :=
  UInt32.ofNat (bo.first * a.toNat + bo.second * b.toNat)

/-- An mbuf: the address of its data and the data. -/
structure PlacedMbuf where
  addr : Nat
  data : List UInt8
deriving DecidableEq

/-- `ADDCARRY` of the two halves. -/
def reduce (sum : UInt32) : UInt32 :=
  let sum := foldCarry sum
  if 65535 < sum then sum - 65535 else sum

/-- `sum += w[0]; sum += w[1]; ..`. -/
def addShorts (bo : ByteOrder) : Nat → UInt32 → List UInt8 → UInt32
  | 0, sum, _ => sum
  | n + 1, sum, w => addShorts bo n (sum + bo.short (w.getD 0 0) (w.getD 1 0)) (w.drop 2)

/-- The sum, the pointer, as what is behind it, and the octets to go. -/
structure Reading where
  sum : UInt32
  w : List UInt8
  mlen : Nat

/-- `while ((mlen -= 2 * n) >= 0) { .. w += n; } mlen += 2 * n;`. A round for each octet to go is
more than enough. -/
def shortsLoop (bo : ByteOrder) (n : Nat) : Nat → Reading → Reading
  | 0, r => r
  | fuel + 1, r =>
      if 2 * n ≤ r.mlen then
        shortsLoop bo n fuel ⟨addShorts bo n r.sum r.w, r.w.drop (2 * n), r.mlen - 2 * n⟩
      else r

/-- The variables of the loop over the mbufs: `odd` is for `mlen == -1`, when `c0` waits in
`s_util.c[0]`. -/
structure CksumState where
  sum : UInt32
  c0 : UInt8
  odd : Bool
  len : Nat

/-- What is done with an mbuf from `w` on, where an even number of octets has been read. -/
def cksumRest (bo : ByteOrder) (sum : UInt32) (c0 : UInt8) (addr : Nat) (w : List UInt8)
    (len : Nat) : CksumState :=
  let mlen := min len w.length
  let len := len - mlen
  -- force to even boundary
  let swapped : Bool := addr % 2 = 1 ∧ 0 < mlen
  let c0 := if swapped then w.getD 0 0 else c0
  let r : Reading := if swapped then ⟨reduce sum <<< 8, w.drop 1, mlen - 1⟩ else ⟨sum, w, mlen⟩
  let r := shortsLoop bo 16 r.mlen r
  let r := shortsLoop bo 4 r.mlen r
  if r.mlen = 0 ∧ ¬ swapped then ⟨r.sum, c0, false, len⟩
  else
    let r := shortsLoop bo 1 r.mlen { r with sum := reduce r.sum }
    if swapped then
      let sum := reduce r.sum <<< 8
      if r.mlen = 1 then ⟨sum + bo.short c0 (r.w.getD 0 0), c0, false, len⟩
      else ⟨sum, c0, true, len⟩
    else if r.mlen = 1 then ⟨r.sum, r.w.getD 0 0, true, len⟩
    else ⟨r.sum, c0, false, len⟩

/-- One mbuf. Its first octet may be the continuation of a word spanning between this mbuf and
the last one. -/
def cksumMbuf (bo : ByteOrder) (s : CksumState) (m : PlacedMbuf) : CksumState :=
  if m.data = [] then s
  else if s.odd then
    cksumRest bo (s.sum + bo.short s.c0 (m.data.getD 0 0)) s.c0 (m.addr + 1) (m.data.drop 1)
      (s.len - 1)
  else cksumRest bo s.sum s.c0 m.addr m.data s.len

/-- `for (;m && len; m = m->m_next)`. -/
def cksumLoop (bo : ByteOrder) : CksumState → List PlacedMbuf → CksumState
  | s, [] => s
  | s, m :: ms => if s.len = 0 then s else cksumLoop bo (cksumMbuf bo s m) ms

/-- `in_cksum`. -/
def inCksum (bo : ByteOrder) (ms : List PlacedMbuf) (len : Nat) : UInt32 :=
  let s := cksumLoop bo ⟨0, 0, false, len⟩ ms
  let sum := if s.odd then s.sum + bo.short s.c0 0 else s.sum
  ~~~ reduce sum &&& 0xffff

/-! ## What it is to be -/

/-- The big-endian words of a list of octets, the last one filled up with zero. -/
def bigWords : List UInt8 → List Nat
  | [] => []
  | [a] => [256 * a.toNat]
  | a :: b :: l => (256 * a.toNat + b.toNat) :: bigWords l

/-- The complement of the one's-complement sum of the words. -/
def internetCksum (l : List UInt8) : Nat := 65535 - onesSum (bigWords l)

/-- The value that a word has on the machine whose octets are those of `x` in network order. -/
def ByteOrder.htons : ByteOrder → Nat → Nat
  | .big, x => x
  | .little, x => swap16 x

/-- The octets that a word has in memory. -/
def ByteOrder.mem : ByteOrder → Nat → List UInt8
  | .big, x => [UInt8.ofNat (x / 256), UInt8.ofNat x]
  | .little, x => [UInt8.ofNat x, UInt8.ofNat (x / 256)]

/-- The octets of a chain. -/
def chainData (ms : List PlacedMbuf) : List UInt8 := ms.flatMap PlacedMbuf.data

/-! ## Sums on the machine -/

section

variable {bo : ByteOrder} {l m w : List UInt8} {a b c0 : UInt8} {sum : UInt32}

/-- The sum of the words as the machine has them, without carries brought round. -/
def hostSum (bo : ByteOrder) : List UInt8 → Nat
  | [] => 0
  | [a] => bo.first * a.toNat
  | a :: b :: l => bo.first * a.toNat + bo.second * b.toNat + hostSum bo l

theorem toNat_short (bo : ByteOrder) (a b : UInt8) :
    (bo.short a b).toNat = bo.first * a.toNat + bo.second * b.toNat := by
  have ha := a.toNat_lt
  have hb := b.toNat_lt
  rw [ByteOrder.short, UInt32.toNat_ofNat']
  cases bo <;> simp only [ByteOrder.first, ByteOrder.second] <;> omega

theorem short_le (bo : ByteOrder) (a b : UInt8) :
    bo.first * a.toNat + bo.second * b.toNat ≤ 65535 := by
  have ha := a.toNat_lt
  have hb := b.toNat_lt
  cases bo <;> simp only [ByteOrder.first, ByteOrder.second] <;> omega

theorem length_cons_cons_mod {α : Type} (a b : α) (l : List α) :
    (a :: b :: l).length % 2 = l.length % 2 := by
  rw [List.length_cons, List.length_cons, Nat.add_assoc, Nat.add_mod_right]

theorem hostSum_append (h : l.length % 2 = 0) :
    hostSum bo (l ++ m) = hostSum bo l + hostSum bo m := by
  induction l using hostSum.induct with
  | case1 => simp [hostSum]
  | case2 a => simp at h
  | case3 a b l ih =>
      have hl : l.length % 2 = 0 := by rwa [length_cons_cons_mod] at h
      rw [List.cons_append, List.cons_append, hostSum, hostSum, ih hl]
      omega

theorem hostSum_take_add {k k' : Nat} (h : k % 2 = 0) (hk : k ≤ w.length) :
    hostSum bo (w.take (k + k')) = hostSum bo (w.take k) + hostSum bo ((w.drop k).take k') := by
  have hlen : (w.take k).length % 2 = 0 := by
    rw [List.length_take, Nat.min_eq_left hk]
    exact h
  rw [List.take_add, hostSum_append hlen]

theorem hostSum_concat (h : l.length % 2 = 1) :
    hostSum bo (l ++ [b]) = hostSum bo l + bo.second * b.toNat := by
  induction l using hostSum.induct with
  | case1 => simp at h
  | case2 a => simp [hostSum]
  | case3 x y l ih =>
      have hl : l.length % 2 = 1 := by rwa [length_cons_cons_mod] at h
      rw [List.cons_append, List.cons_append, hostSum, hostSum, ih hl]
      omega

theorem hostSum_le (bo : ByteOrder) (h : l.length % 2 = 0) :
    2 * hostSum bo l ≤ 65535 * l.length := by
  induction l using hostSum.induct with
  | case1 => simp [hostSum]
  | case2 a => simp at h
  | case3 a b l ih =>
      have hl : l.length % 2 = 0 := by rwa [length_cons_cons_mod] at h
      have hword := short_le bo a b
      have hrest := ih hl
      rw [hostSum, List.length_cons, List.length_cons]
      omega

theorem onesEq_first (bo : ByteOrder) (x : Nat) :
    OnesEq (256 * (bo.first * x)) (bo.second * x) := by
  cases bo with
  | big =>
      have h := onesEq_mul_65536 x
      simp only [ByteOrder.first, ByteOrder.second]
      rwa [← Nat.mul_assoc, Nat.one_mul]
  | little => simp only [ByteOrder.first, ByteOrder.second, Nat.one_mul]; rfl

theorem onesEq_second (bo : ByteOrder) (x : Nat) :
    OnesEq (256 * (bo.second * x)) (bo.first * x) := by
  cases bo with
  | big => simp only [ByteOrder.first, ByteOrder.second, Nat.one_mul]; rfl
  | little =>
      have h := onesEq_mul_65536 x
      simp only [ByteOrder.first, ByteOrder.second]
      rwa [← Nat.mul_assoc, Nat.one_mul]

/-- Behind a single octet the words have their octets the wrong way round. -/
theorem hostSum_cons (bo : ByteOrder) (h : l.length % 2 = 0) (a : UInt8) :
    OnesEq (hostSum bo (a :: l)) (bo.first * a.toNat + 256 * hostSum bo l) := by
  induction l using hostSum.induct generalizing a with
  | case1 => simp [hostSum]; rfl
  | case2 x => simp at h
  | case3 x y l ih =>
      have hl : l.length % 2 = 0 := by rwa [length_cons_cons_mod] at h
      have hx := onesEq_first bo x.toNat
      have hy := onesEq_second bo y.toNat
      have hrest := ih hl y
      have hsum : 256 * (bo.first * x.toNat + bo.second * y.toNat + hostSum bo l) =
          256 * (bo.first * x.toNat) + (256 * (bo.second * y.toNat) + 256 * hostSum bo l) := by
        rw [Nat.mul_add, Nat.mul_add, Nat.add_assoc]
      rw [hostSum, hostSum, hsum, Nat.add_assoc]
      exact .add (.refl _) (hx.symm.add (hrest.trans (hy.symm.add (.refl _))))

theorem toNat_foldCarry (sum : UInt32) :
    (foldCarry sum).toNat = sum.toNat % 65536 + sum.toNat / 65536 := by
  have hlt := sum.toNat_lt
  have hand : (sum &&& (0xffff : UInt32)).toNat = sum.toNat % 65536 := by
    rw [UInt32.toNat_and]
    exact Nat.and_two_pow_sub_one_eq_mod sum.toNat 16
  have hshift : (sum >>> (16 : UInt32)).toNat = sum.toNat / 65536 := by
    rw [UInt32.toNat_shiftRight, Nat.shiftRight_eq_div_pow]
    rfl
  rw [foldCarry, UInt32.toNat_add, hand, hshift]
  omega

theorem reduce_spec (sum : UInt32) :
    OnesEq (reduce sum).toNat sum.toNat ∧ (reduce sum).toNat ≤ 65535 := by
  have hlt := sum.toNat_lt
  have hfold := toNat_foldCarry sum
  have heq := onesEq_fold sum.toNat
  rw [← hfold] at heq
  rw [reduce]
  split_ifs with h
  · have hgt : 65535 < (foldCarry sum).toNat := UInt32.lt_iff_toNat_lt.mp h
    have hsub : (foldCarry sum - 65535).toNat = (foldCarry sum).toNat - 65535 :=
      UInt32.toNat_sub_of_le _ _ (UInt32.le_iff_toNat_le.mpr hgt.le)
    rw [hsub]
    exact ⟨(onesEq_carry hgt).trans heq, by omega⟩
  · have hle : (foldCarry sum).toNat ≤ 65535 :=
      Nat.not_lt.mp fun hgt => h (UInt32.lt_iff_toNat_lt.mpr hgt)
    exact ⟨heq, hle⟩

theorem toNat_exchange (h : sum.toNat ≤ 65535) : (sum <<< 8).toNat = 256 * sum.toNat := by
  rw [UInt32.toNat_shiftLeft]
  have h8 : (8 : UInt32).toNat % 32 = 8 := rfl
  rw [h8, Nat.shiftLeft_eq]
  omega

/-! ## The unrolled loops -/

theorem addShorts_spec (bo : ByteOrder) (sum : UInt32) {n : Nat} (hw : 2 * n ≤ w.length)
    (hsum : sum.toNat + 65535 * n < 2 ^ 32) :
    (addShorts bo n sum w).toNat = sum.toNat + hostSum bo (w.take (2 * n)) := by
  induction n generalizing sum w with
  | zero => simp [addShorts, hostSum]
  | succ n ih =>
      match w with
      | [] => simp at hw
      | [_] =>
          rw [List.length_singleton] at hw
          omega
      | a :: b :: w =>
          simp only [List.length_cons] at hw
          have hword := short_le bo a b
          have hadd : (sum + bo.short a b).toNat =
              sum.toNat + (bo.first * a.toNat + bo.second * b.toNat) := by
            rw [UInt32.toNat_add, toNat_short, Nat.mod_eq_of_lt (by omega)]
          have hrest := ih (w := w) (sum + bo.short a b) (by omega) (by omega)
          have htake : (a :: b :: w).take (2 * (n + 1)) = a :: b :: w.take (2 * n) := rfl
          rw [addShorts, htake, hostSum]
          simp only [List.getD_cons_zero, List.getD_cons_succ, List.drop_succ_cons, List.drop_zero]
          rw [hrest, hadd]
          omega

/-- An even number of octets has been read and summed up. -/
structure Reads (bo : ByteOrder) (r r' : Reading) (k : Nat) : Prop where
  even : k % 2 = 0
  mlen : r'.mlen + k = r.mlen
  w : r'.w = r.w.drop k
  sum : r'.sum.toNat = r.sum.toNat + hostSum bo (r.w.take k)

theorem Reads.refl (bo : ByteOrder) (r : Reading) : Reads bo r r 0 :=
  ⟨rfl, rfl, rfl, by simp [hostSum]⟩

theorem Reads.trans {r r' r'' : Reading} {k k' : Nat} (h : Reads bo r r' k)
    (h' : Reads bo r' r'' k') (hw : r.mlen ≤ r.w.length) : Reads bo r r'' (k + k') := by
  have hlen := h.mlen
  refine ⟨by have := h.even; have := h'.even; omega, by have := h'.mlen; omega, ?_, ?_⟩
  · rw [h'.w, h.w, List.drop_drop]
  · rw [h'.sum, h.sum, h.w, hostSum_take_add h.even (by omega), Nat.add_assoc]

/-- A loop leaves less than a round. The sum has room for the words of all that is left. -/
theorem shortsLoop_spec (bo : ByteOrder) {n fuel : Nat} {r : Reading} (hn : 0 < n)
    (hfuel : r.mlen ≤ fuel) (hw : r.mlen ≤ r.w.length)
    (hsum : 2 * r.sum.toNat + 65535 * r.mlen < 2 ^ 33) :
    ∃ k, Reads bo r (shortsLoop bo n fuel r) k ∧ (shortsLoop bo n fuel r).mlen < 2 * n := by
  induction fuel generalizing r with
  | zero => exact ⟨0, .refl bo r, by rw [shortsLoop]; omega⟩
  | succ fuel ih =>
      rw [shortsLoop]
      by_cases hround : 2 * n ≤ r.mlen
      · rw [if_pos hround]
        have hadd := addShorts_spec bo r.sum (n := n) (w := r.w) (by omega) (by omega)
        have hle : 2 * hostSum bo (r.w.take (2 * n)) ≤ 65535 * (2 * n) := by
          have h := hostSum_le bo (l := r.w.take (2 * n)) (by
            rw [List.length_take, Nat.min_eq_left (by omega)]
            omega)
          rwa [List.length_take, Nat.min_eq_left (by omega)] at h
        have hone : Reads bo r ⟨addShorts bo n r.sum r.w, r.w.drop (2 * n), r.mlen - 2 * n⟩
            (2 * n) :=
          ⟨by omega, Nat.sub_add_cancel hround, rfl, hadd⟩
        obtain ⟨k, hreads, hless⟩ :=
          ih (r := ⟨addShorts bo n r.sum r.w, r.w.drop (2 * n), r.mlen - 2 * n⟩)
            (by simp only; omega) (by rw [List.length_drop]; simp only; omega)
            (by simp only; omega)
        exact ⟨2 * n + k, hone.trans hreads hw, hless⟩
      · rw [if_neg hround]
        exact ⟨0, .refl bo r, by omega⟩

theorem Reads.bound {r r' : Reading} {k : Nat} (h : Reads bo r r' k) (hw : r.mlen ≤ r.w.length) :
    r'.mlen ≤ r'.w.length ∧
      2 * r'.sum.toNat + 65535 * r'.mlen ≤ 2 * r.sum.toNat + 65535 * r.mlen := by
  have hlen := h.mlen
  have htake : (r.w.take k).length = k := by
    rw [List.length_take]
    omega
  have hle := hostSum_le bo (l := r.w.take k) (by rw [htake]; exact h.even)
  rw [htake] at hle
  have hsum := h.sum
  rw [h.w, List.length_drop]
  omega

theorem unrolled_spec (bo : ByteOrder) {r : Reading} (hw : r.mlen ≤ r.w.length)
    (hsum : 2 * r.sum.toNat + 65535 * r.mlen < 2 ^ 33) :
    ∃ k r', shortsLoop bo 4 (shortsLoop bo 16 r.mlen r).mlen (shortsLoop bo 16 r.mlen r) = r' ∧
      Reads bo r r' k := by
  obtain ⟨k, hk, -⟩ := shortsLoop_spec bo (n := 16) (by decide) (Nat.le_refl r.mlen) hw hsum
  obtain ⟨hw', hbound⟩ := hk.bound hw
  obtain ⟨k', hk', -⟩ := shortsLoop_spec bo (n := 4) (by decide)
    (Nat.le_refl (shortsLoop bo 16 r.mlen r).mlen) hw' (by omega)
  exact ⟨k + k', _, rfl, hk.trans hk' hw⟩

/-- The last loop, after the carries have been brought round. -/
theorem lastLoop_spec {r r' : Reading} {k : Nat} (h : Reads bo r r' k) (hw : r.mlen ≤ r.w.length)
    (hlen : r.mlen ≤ 65535) :
    ∃ j r'', shortsLoop bo 1 r'.mlen { r' with sum := reduce r'.sum } = r'' ∧ j % 2 = 0 ∧
      r''.mlen + j = r.mlen ∧ r''.mlen < 2 ∧ r''.w = r.w.drop j ∧
      OnesEq r''.sum.toNat (r.sum.toNat + hostSum bo (r.w.take j)) ∧
      2 * r''.sum.toNat ≤ 131070 + 65535 * j := by
  obtain ⟨hred, hredle⟩ := reduce_spec r'.sum
  have hw' : r'.mlen ≤ r'.w.length := (h.bound hw).1
  have hle := h.mlen
  obtain ⟨k', hk', hless⟩ := shortsLoop_spec bo (n := 1)
    (r := { r' with sum := reduce r'.sum }) (by decide) (Nat.le_refl r'.mlen) hw'
    (by simp only; omega)
  have hlen := hk'.mlen
  have hbound := (hk'.bound hw').2
  have hsum := hk'.sum
  dsimp only at hlen hbound hsum
  refine ⟨k + k', _, rfl, ?_, by omega, hless, ?_, ?_, ?_⟩
  · have heven := h.even
    have heven' := hk'.even
    omega
  · rw [hk'.w, h.w, List.drop_drop]
  · rw [hsum, hostSum_take_add h.even (by omega), ← Nat.add_assoc, ← h.sum, h.w]
    exact hred.add (.refl _)
  · omega

/-! ## One mbuf -/

/-- The octets `l` have been read. One of them may still wait. -/
structure Summed (bo : ByteOrder) (s : CksumState) (l : List UInt8) : Prop where
  parity : l.length % 2 = if s.odd then 1 else 0
  sum : OnesEq (s.sum.toNat + if s.odd then bo.first * s.c0.toNat else 0) (hostSum bo l)
  bound : 2 * s.sum.toNat + (if s.odd then 65535 else 0) ≤ 33553920 + 65535 * l.length

theorem take_length_succ {j : Nat} (hj : j < w.length) :
    w.take (j + 1) = w.take j ++ [w.getD j 0] := by
  rw [List.take_succ_eq_append_getElem hj, List.getD_eq_getElem?_getD,
    List.getElem?_eq_getElem hj, Option.getD_some]

theorem getD_drop (j : Nat) : (w.drop j).getD 0 0 = w.getD j 0 := by
  simp [List.getD_eq_getElem?_getD]

/-- An mbuf that begins at an even address. -/
theorem Summed.even {k mlen : Nat} {r : Reading} (c0 : UInt8) (len : Nat) (hl : l.length % 2 = 0)
    (hsum : OnesEq sum.toNat (hostSum bo l))
    (hbound : 2 * sum.toNat ≤ 33553920 + 65535 * l.length)
    (hw : mlen ≤ w.length) (hmlen : mlen ≤ 65535) (hreads : Reads bo ⟨sum, w, mlen⟩ r k) :
    Summed bo
      (if r.mlen = 0 then ⟨r.sum, c0, false, len⟩
      else
        let r := shortsLoop bo 1 r.mlen { r with sum := reduce r.sum }
        if r.mlen = 1 then ⟨r.sum, r.w.getD 0 0, true, len⟩ else ⟨r.sum, c0, false, len⟩)
      (l ++ w.take mlen) := by
  have hk := hreads.mlen
  dsimp only at hk
  have hlen : (l ++ w.take mlen).length = l.length + mlen := by
    rw [List.length_append, List.length_take, Nat.min_eq_left hw]
  by_cases h0 : r.mlen = 0
  · rw [if_pos h0]
    obtain rfl : k = mlen := by omega
    have hle := (hreads.bound hw).2
    have heven := hreads.even
    dsimp only at hle
    refine ⟨?_, ?_, ?_⟩
    · rw [hlen]
      simp only [if_false, Bool.false_eq_true]
      omega
    · simp only [Bool.false_eq_true, if_false, Nat.add_zero, hreads.sum, hostSum_append hl]
      exact hsum.add (.refl _)
    · rw [hlen]
      simp only [Bool.false_eq_true, if_false]
      omega
  · rw [if_neg h0]
    dsimp only
    obtain ⟨j, r', hr', heven, hj, hless, hdrop, heq, hle⟩ := lastLoop_spec hreads hw hmlen
    rw [hr']
    dsimp only at hj hdrop heq
    by_cases h1 : r'.mlen = 1
    · rw [if_pos h1]
      obtain rfl : mlen = j + 1 := by omega
      have hpar : (l ++ w.take j).length % 2 = 0 := by
        rw [List.length_append, List.length_take]
        omega
      refine ⟨?_, ?_, ?_⟩
      · rw [hlen]
        simp only [if_true]
        omega
      · have hlast : hostSum bo (l ++ (w.take j ++ [w.getD j 0])) =
            hostSum bo l + hostSum bo (w.take j) + bo.first * (w.getD j 0).toNat := by
          rw [← List.append_assoc, hostSum_append hpar, hostSum_append hl, hostSum]
        simp only [if_true]
        rw [take_length_succ (by omega), hlast, hdrop, getD_drop]
        exact (heq.trans (hsum.add (.refl _))).add (.refl _)
      · rw [hlen]
        simp only [if_true]
        omega
    · rw [if_neg h1]
      obtain rfl : j = mlen := by omega
      refine ⟨?_, ?_, ?_⟩
      · rw [hlen]
        simp only [Bool.false_eq_true, if_false]
        omega
      · simp only [Bool.false_eq_true, if_false, Nat.add_zero, hostSum_append hl]
        exact heq.trans (hsum.add (.refl _))
      · rw [hlen]
        simp only [Bool.false_eq_true, if_false]
        omega

/-- An mbuf that begins at an odd address. -/
theorem Summed.odd {k n : Nat} {r : Reading} (a : UInt8) (len : Nat) (hl : l.length % 2 = 0)
    (hsum : OnesEq sum.toNat (hostSum bo l)) (hw : n ≤ w.length) (hn : n ≤ 65535)
    (hreads : Reads bo ⟨reduce sum <<< 8, w, n⟩ r k) :
    Summed bo
      (let r := shortsLoop bo 1 r.mlen { r with sum := reduce r.sum }
      let sum := reduce r.sum <<< 8
      if r.mlen = 1 then ⟨sum + bo.short a (r.w.getD 0 0), a, false, len⟩
      else ⟨sum, a, true, len⟩)
      (l ++ a :: w.take n) := by
  obtain ⟨hred, hredle⟩ := reduce_spec sum
  obtain ⟨j, r', hr', heven, hj, hless, hdrop, heq, hle⟩ := lastLoop_spec hreads hw hn
  obtain ⟨hred', hredle'⟩ := reduce_spec r'.sum
  dsimp only at hj hdrop heq ⊢
  rw [hr']
  rw [toNat_exchange hredle] at heq
  have hex : (reduce r'.sum <<< 8).toNat = 256 * (reduce r'.sum).toNat := toNat_exchange hredle'
  have hlen : (l ++ a :: w.take n).length = l.length + n + 1 := by
    rw [List.length_append, List.length_cons, List.length_take, Nat.min_eq_left hw, Nat.add_assoc]
  -- the sum was exchanged before and after
  have hwords : OnesEq (256 * (reduce r'.sum).toNat + bo.first * a.toNat)
      (hostSum bo (l ++ a :: w.take j)) := by
    have hback : OnesEq (256 * (reduce r'.sum).toNat)
        (hostSum bo l + 256 * hostSum bo (w.take j)) := by
      have hin : OnesEq r'.sum.toNat (256 * hostSum bo l + hostSum bo (w.take j)) :=
        heq.trans (((hred.trans hsum).mul_left 256).add (.refl _))
      have hout := (hred'.trans hin).mul_left 256
      rw [Nat.mul_add, ← Nat.mul_assoc] at hout
      exact hout.trans ((onesEq_mul_65536 _).add (.refl _))
    have hcons := hostSum_cons bo (l := w.take j)
      (by rw [List.length_take, Nat.min_eq_left (by omega)]; exact heven) a
    have hsplit : hostSum bo l + 256 * hostSum bo (w.take j) + bo.first * a.toNat =
        hostSum bo l + (bo.first * a.toNat + 256 * hostSum bo (w.take j)) := by omega
    have hadd := hback.add (OnesEq.refl (bo.first * a.toNat))
    rw [hsplit] at hadd
    rw [hostSum_append hl]
    exact hadd.trans ((OnesEq.refl _).add hcons.symm)
  by_cases h1 : r'.mlen = 1
  · rw [if_pos h1]
    obtain rfl : n = j + 1 := by omega
    have hshort := short_le bo a (w.getD j 0)
    have hput : (reduce r'.sum <<< 8 + bo.short a (w.getD j 0)).toNat =
        256 * (reduce r'.sum).toNat + (bo.first * a.toNat + bo.second * (w.getD j 0).toNat) := by
      rw [UInt32.toNat_add, toNat_short, hex, Nat.mod_eq_of_lt (by omega)]
    have hpar : (l ++ a :: w.take j).length % 2 = 1 := by
      rw [List.length_append, List.length_cons, List.length_take]
      omega
    rw [hdrop, getD_drop]
    refine ⟨?_, ?_, ?_⟩
    · rw [hlen]
      simp only [Bool.false_eq_true, if_false]
      omega
    · have hlast : l ++ a :: w.take (j + 1) = l ++ a :: w.take j ++ [w.getD j 0] := by
        rw [take_length_succ (by omega), List.append_assoc, List.cons_append]
      simp only [Bool.false_eq_true, if_false, Nat.add_zero]
      rw [hput, hlast, hostSum_concat hpar, ← Nat.add_assoc]
      exact hwords.add (.refl _)
    · simp only [Bool.false_eq_true, if_false, hput, hlen]
      omega
  · rw [if_neg h1]
    obtain rfl : j = n := by omega
    refine ⟨?_, ?_, ?_⟩
    · rw [hlen]
      simp only [if_true]
      omega
    · simp only [if_true, hex]
      exact hwords
    · simp only [if_true, hex, hlen]
      omega

theorem cksumRest_spec (c0 : UInt8) (addr len : Nat) (hl : l.length % 2 = 0)
    (hsum : OnesEq sum.toNat (hostSum bo l))
    (hbound : 2 * sum.toNat ≤ 33553920 + 65535 * l.length) (hlen : l.length + len ≤ 65535) :
    Summed bo (cksumRest bo sum c0 addr w len) (l ++ w.take len) ∧
      (cksumRest bo sum c0 addr w len).len = len - w.length := by
  have htake : w.take len = w.take (min len w.length) := by
    rw [List.take_eq_take_min]
  have hmin : min len w.length ≤ w.length := Nat.min_le_right ..
  have hminlen : min len w.length ≤ len := Nat.min_le_left ..
  have hleft : len - min len w.length = len - w.length := by omega
  rw [htake, cksumRest]
  generalize hmlen : min len w.length = mlen at hmin hminlen hleft
  rw [hleft]
  by_cases hodd : addr % 2 = 1 ∧ 0 < mlen
  · obtain ⟨a, w', rfl⟩ := List.exists_cons_of_length_pos (Nat.lt_of_lt_of_le hodd.2 hmin)
    obtain ⟨n, rfl⟩ := Nat.exists_eq_add_of_lt hodd.2
    obtain ⟨hred, hredle⟩ := reduce_spec sum
    rw [List.length_cons] at hmin
    obtain ⟨k, r, hr, hreads⟩ := unrolled_spec bo (r := ⟨reduce sum <<< 8, w', n⟩)
      (by simp only; omega) (by simp only [toNat_exchange hredle]; omega)
    have hswap : decide (addr % 2 = 1 ∧ 0 < 0 + n + 1) = true := decide_eq_true hodd
    have hn : 0 + n + 1 - 1 = n := by omega
    simp only [hswap, if_true, List.drop_succ_cons, List.drop_zero, List.getD_cons_zero, hn,
      not_true, and_false, if_false, hr]
    have hdone := Summed.odd a (len - (a :: w').length) hl hsum (by omega) (by omega) hreads
    have hcons : (a :: w').take (0 + n + 1) = a :: w'.take n := by
      rw [Nat.zero_add, List.take_succ_cons]
    rw [hcons]
    refine ⟨hdone, ?_⟩
    split_ifs <;> rfl
  · obtain ⟨k, r, hr, hreads⟩ := unrolled_spec bo (r := ⟨sum, w, mlen⟩)
      (by simpa using hmin) (by simp only; omega)
    have hswap : decide (addr % 2 = 1 ∧ 0 < mlen) = false := decide_eq_false hodd
    simp only [hswap, Bool.false_eq_true, if_false, not_false_eq_true, and_true, hr]
    have hdone := Summed.even c0 (len - w.length) hl hsum hbound hmin (by omega) hreads
    refine ⟨hdone, ?_⟩
    split_ifs <;> rfl

theorem cksumMbuf_spec {st : CksumState} (h : Summed bo st l) (m : PlacedMbuf) (hpos : 0 < st.len)
    (hlen : l.length + st.len ≤ 65535) :
    Summed bo (cksumMbuf bo st m) (l ++ m.data.take st.len) ∧
      (cksumMbuf bo st m).len = st.len - m.data.length := by
  obtain ⟨hpar, hsum, hbound⟩ := h
  rw [cksumMbuf]
  by_cases hnil : m.data = []
  · rw [if_pos hnil, hnil, List.take_nil, List.append_nil]
    exact ⟨⟨hpar, hsum, hbound⟩, rfl⟩
  · rw [if_neg hnil]
    by_cases hodd : st.odd = true
    · rw [if_pos hodd]
      simp only [hodd, if_true] at hpar hsum hbound
      obtain ⟨b, d, hd⟩ := List.exists_cons_of_ne_nil hnil
      have hshort := short_le bo st.c0 b
      have hadd : (st.sum + bo.short st.c0 b).toNat =
          st.sum.toNat + (bo.first * st.c0.toNat + bo.second * b.toNat) := by
        rw [UInt32.toNat_add, toNat_short, Nat.mod_eq_of_lt (by omega)]
      have hnext : OnesEq (st.sum + bo.short st.c0 b).toNat (hostSum bo (l ++ [b])) := by
        rw [hadd, hostSum_concat hpar, ← Nat.add_assoc]
        exact hsum.add (.refl _)
      have htake : l ++ (b :: d).take st.len = l ++ [b] ++ d.take (st.len - 1) := by
        rw [List.take_cons hpos, List.append_assoc, List.singleton_append]
      have hnew : (l ++ [b]).length = l.length + 1 := by simp
      obtain ⟨hdone, hrest⟩ := cksumRest_spec (w := d) st.c0 (m.addr + 1) (st.len - 1)
        (by omega) hnext (by omega) (by omega)
      rw [hd, htake, List.getD_cons_zero, List.drop_succ_cons, List.drop_zero]
      refine ⟨hdone, hrest.trans ?_⟩
      rw [List.length_cons]
      omega
    · rw [if_neg hodd]
      simp only [hodd, Bool.false_eq_true, if_false, Nat.add_zero] at hpar hsum hbound
      exact cksumRest_spec _ _ _ hpar hsum hbound hlen

/-! ## The chain -/

theorem cksumLoop_spec {st : CksumState} {ms : List PlacedMbuf} (h : Summed bo st l)
    (hlen : l.length + st.len ≤ 65535) (hall : st.len ≤ (chainData ms).length) :
    Summed bo (cksumLoop bo st ms) (l ++ (chainData ms).take st.len) := by
  induction ms generalizing st l with
  | nil => simpa [cksumLoop, chainData] using h
  | cons m ms ih =>
      rw [cksumLoop]
      by_cases h0 : st.len = 0
      · rw [if_pos h0, h0, List.take_zero, List.append_nil]
        exact h
      · rw [if_neg h0]
        obtain ⟨hnext, hleft⟩ := cksumMbuf_spec h m (Nat.pos_of_ne_zero h0) hlen
        have hdata : chainData (m :: ms) = m.data ++ chainData ms := List.flatMap_cons
        rw [hdata, List.length_append] at hall
        have hread : (l ++ m.data.take st.len).length = l.length + min st.len m.data.length := by
          rw [List.length_append, List.length_take]
        have hrest := ih hnext (by omega) (by omega)
        rwa [hleft, List.append_assoc, ← List.take_append, ← hdata] at hrest

end

theorem toNat_complement {x : UInt32} (h : x.toNat ≤ 65535) :
    (~~~ x &&& 0xffff).toNat = 65535 - x.toNat := by
  have hand : (~~~ x &&& (0xffff : UInt32)).toNat = (~~~ x).toNat % 65536 := by
    rw [UInt32.toNat_and]
    exact Nat.and_two_pow_sub_one_eq_mod (~~~ x).toNat 16
  rw [hand, UInt32.toNat_not]
  simp only [UInt32.size]
  omega

theorem bigWords_le (l : List UInt8) : ∀ x ∈ bigWords l, x ≤ 65535 := by
  induction l using bigWords.induct with
  | case1 => simp [bigWords]
  | case2 a =>
      have ha := a.toNat_lt
      simp only [bigWords, List.mem_singleton, forall_eq]
      omega
  | case3 a b l ih =>
      have ha := a.toNat_lt
      have hb := b.toNat_lt
      simp only [bigWords, List.mem_cons, forall_eq_or_imp]
      exact ⟨by omega, ih⟩

theorem hostSum_big (l : List UInt8) : hostSum .big l = (bigWords l).sum := by
  induction l using bigWords.induct with
  | case1 => rfl
  | case2 a => simp [hostSum, bigWords, ByteOrder.first]
  | case3 a b l ih => simp [hostSum, bigWords, ByteOrder.first, ByteOrder.second, ih]

theorem hostSum_little (l : List UInt8) : OnesEq (hostSum .little l) (256 * (bigWords l).sum) := by
  induction l using bigWords.induct with
  | case1 => rfl
  | case2 a =>
      have h := onesEq_mul_65536 a.toNat
      simp only [hostSum, bigWords, ByteOrder.first, List.sum_singleton, Nat.one_mul]
      rw [← Nat.mul_assoc]
      exact h.symm
  | case3 a b l ih =>
      have h := onesEq_mul_65536 a.toNat
      have hsplit : 256 * (256 * a.toNat + b.toNat + (bigWords l).sum) =
          65536 * a.toNat + 256 * b.toNat + 256 * (bigWords l).sum := by ring
      simp only [hostSum, bigWords, ByteOrder.first, ByteOrder.second, List.sum_cons, Nat.one_mul]
      rw [hsplit]
      exact (h.symm.add (.refl _)).add ih

/-- A sum of the words as the machine has them is the sum of the big-endian words. -/
theorem htons_internetCksum {bo : ByteOrder} {l : List UInt8} {x : Nat} (hx : x ≤ 65535)
    (h : OnesEq x (hostSum bo l)) : 65535 - x = bo.htons (internetCksum l) := by
  have hle := onesSum_le (bigWords_le l)
  have hsum := onesEq_onesSum (bigWords l)
  cases bo with
  | big =>
      rw [hostSum_big] at h
      rw [ByteOrder.htons, internetCksum, (h.trans hsum.symm).eq hx hle]
  | little =>
      have hswap : OnesEq x (swap16 (onesSum (bigWords l))) :=
        (h.trans (hostSum_little l)).trans ((onesEq_swap16 _).trans (hsum.mul_left 256)).symm
      rw [ByteOrder.htons, internetCksum, swap16_sub hle, hswap.eq hx (swap16_le hle)]

/-- What the loop over the mbufs leaves is the sum of what it has read, and the complement of that
is returned. -/
theorem inCksum_sum (bo : ByteOrder) (ms : List PlacedMbuf) {len : Nat}
    (hall : len ≤ (chainData ms).length) (hlen : len ≤ 65535) :
    ∃ x ≤ 65535, OnesEq x (hostSum bo ((chainData ms).take len)) ∧
      (inCksum bo ms len).toNat = 65535 - x := by
  have hstart : Summed bo ⟨0, 0, false, len⟩ [] := ⟨rfl, .refl 0, by simp⟩
  have hdone := cksumLoop_spec hstart (by simpa using hlen) hall
  rw [List.nil_append] at hdone
  rw [inCksum]
  generalize cksumLoop bo ⟨0, 0, false, len⟩ ms = st at hdone
  obtain ⟨hpar, hsum, hbound⟩ := hdone
  have hread : ((chainData ms).take len).length = len := by
    rw [List.length_take, Nat.min_eq_left hall]
  have hlast : (if st.odd then st.sum + bo.short st.c0 0 else st.sum).toNat =
      st.sum.toNat + if st.odd then bo.first * st.c0.toNat else 0 := by
    split_ifs with hodd
    · have hshort := short_le bo st.c0 0
      have hzero : bo.second * (0 : UInt8).toNat = 0 := Nat.mul_zero _
      simp only [hodd, if_true] at hbound
      rw [UInt32.toNat_add, toNat_short, hzero, Nat.add_zero, Nat.mod_eq_of_lt (by omega)]
    · rfl
  obtain ⟨hred, hredle⟩ := reduce_spec (if st.odd then st.sum + bo.short st.c0 0 else st.sum)
  rw [hlast] at hred
  exact ⟨_, hredle, hred.trans hsum, toNat_complement hredle⟩

/-- The checksum is that of the first `len` octets, in network order, whatever mbufs they are in
and wherever these begin. -/
theorem in_cksum_correct (bo : ByteOrder) (ms : List PlacedMbuf) (len : Nat)
    (hall : len ≤ (chainData ms).length) (hlen : len ≤ 65535) :
    (inCksum bo ms len).toNat = bo.htons (internetCksum ((chainData ms).take len)) := by
  obtain ⟨x, hx, hsum, hret⟩ := inCksum_sum bo ms hall hlen
  rw [hret, htons_internetCksum hx hsum]

/-- Nine octets in four mbufs, one of them empty, two at odd addresses. -/
theorem in_cksum_four :
    (inCksum .big [⟨1, [1, 2, 3]⟩, ⟨0, []⟩, ⟨3, [4, 5, 6, 7]⟩, ⟨8, [9, 10]⟩] 9).toNat =
      internetCksum [1, 2, 3, 4, 5, 6, 7, 9, 10] :=
  in_cksum_correct .big [⟨1, [1, 2, 3]⟩, ⟨0, []⟩, ⟨3, [4, 5, 6, 7]⟩, ⟨8, [9, 10]⟩] 9
    (by decide) (by decide)

/-! ## A checksum in its place -/

theorem bigWords_append {l : List UInt8} (h : l.length % 2 = 0) (m : List UInt8) :
    bigWords (l ++ m) = bigWords l ++ bigWords m := by
  induction l using bigWords.induct with
  | case1 => rfl
  | case2 a => simp at h
  | case3 a b l ih =>
      have hl : l.length % 2 = 0 := by rwa [length_cons_cons_mod] at h
      rw [List.cons_append, List.cons_append, bigWords, bigWords, ih hl, List.cons_append]

theorem internetCksum_le (l : List UInt8) : internetCksum l ≤ 65535 := Nat.sub_le ..

/-- What a checksum has in memory is in network order. -/
theorem mem_htons (bo : ByteOrder) {x : Nat} (h : x ≤ 65535) :
    bo.mem (bo.htons x) = [UInt8.ofNat (x / 256), UInt8.ofNat x] := by
  cases bo with
  | big => rfl
  | little =>
      have hhi : x / 256 < 256 := by omega
      have hlo : x % 256 < 256 := Nat.mod_lt x (by decide)
      have hmod : UInt8.ofNat x = UInt8.ofNat (x % 256) := by
        rw [← UInt8.toNat_inj, UInt8.toNat_ofNat', UInt8.toNat_ofNat']
        exact (Nat.mod_mod x 256).symm
      rw [ByteOrder.htons, ByteOrder.mem, hmod, swap16]
      generalize x / 256 = hi at hhi ⊢
      generalize x % 256 = lo at hlo ⊢
      have hdiv : (lo * 256 + hi) / 256 = lo := by omega
      have hrest : UInt8.ofNat (lo * 256 + hi) = UInt8.ofNat hi := by
        rw [← UInt8.toNat_inj, UInt8.toNat_ofNat', UInt8.toNat_ofNat']
        omega
      rw [hdiv, hrest]

/-- With its checksum in place of a zero word a row of octets sums up to nothing. -/
theorem internetCksum_valid {l : List UInt8} (h : l.length % 2 = 0) (m : List UInt8) {x : Nat}
    (hx : x = internetCksum (l ++ 0 :: 0 :: m)) :
    internetCksum (l ++ UInt8.ofNat (x / 256) :: UInt8.ofNat x :: m) = 0 := by
  have hxle : x ≤ 65535 := hx ▸ internetCksum_le _
  have hword : ∀ y ≤ 65535, bigWords (l ++ UInt8.ofNat (y / 256) :: UInt8.ofNat y :: m) =
      bigWords l ++ y :: bigWords m := by
    intro y hy
    rw [bigWords_append h, bigWords, UInt8.toNat_ofNat', UInt8.toNat_ofNat']
    congr 2
    omega
  have hzero : bigWords (l ++ 0 :: 0 :: m) = bigWords l ++ 0 :: bigWords m := hword 0 (by decide)
  have hsum := onesEq_onesSum (bigWords l ++ 0 :: bigWords m)
  have hle := onesSum_le (bigWords_le (l ++ 0 :: 0 :: m))
  have hle' := onesSum_le (bigWords_le (l ++ UInt8.ofNat (x / 256) :: UInt8.ofNat x :: m))
  rw [internetCksum, hzero] at hx
  rw [hzero] at hle
  rw [hword x hxle] at hle'
  have hall : OnesEq (onesSum (bigWords l ++ x :: bigWords m)) 65535 := by
    have hx' : onesSum (bigWords l ++ 0 :: bigWords m) + x = 65535 := by omega
    have hadd := onesEq_onesSum (bigWords l ++ x :: bigWords m)
    have hmore : (bigWords l ++ x :: bigWords m).sum = (bigWords l ++ 0 :: bigWords m).sum + x := by
      rw [List.sum_append, List.sum_append, List.sum_cons, List.sum_cons]
      omega
    rw [hmore] at hadd
    rw [← hx']
    exact hadd.trans (hsum.symm.add (.refl x))
  rw [internetCksum, hword x hxle, hall.eq hle' (Nat.le_refl _)]

end VxWorks.Netinet
