import Mathlib.Logic.Function.Basic
import Mathlib.Logic.Function.Iterate
import VxWorks.Lib.Gather

/-!
# The DES of the password hash (crypt.c)

The code keeps the halves of a block expanded to 48 bits, six to a byte above two bits that
are zero, so that each byte is the offset of an entry in the tables `SPE`, which do the
work of S, P and E at once. The tables are made at the start from those of the standard:
`init_perm` turns a table of bit positions into one that `permute` looks up by chunks of
four bits. The round keys are kept expanded too, and each is made from the one before by
a permutation that undoes PC2, rotates and does PC2 again; what PC2 would lose goes along
in the two low bits of the bytes.

A `C_block` is a word of 64 bits with its bytes from the low end up, and the integers over
them the same way; the code takes care that no other order makes a difference. The tables
that `init_des` leaves in static memory are functions here.
-/

namespace VxWorks.Ppp.Crypt

open VxWorks.Lib

abbrev CBlock := BitVec 64

def blockI0 (x : CBlock) : BitVec 32 := x.extractLsb' 0 32

def blockI1 (x : CBlock) : BitVec 32 := x.extractLsb' 32 32

/-- `STORE`. -/
def store (i0 i1 : BitVec 32) : CBlock := i1 ++ i0

/-- `b[j]`. -/
def blockB (x : CBlock) (j : Nat) : BitVec 8 := x.extractLsb' (8 * j) 8

/-- `TO_SIX_BIT`. -/
def toSixBit (src : BitVec 32) : BitVec 32 :=
  let b0 := src.setWidth 8
  let b1 := (src.sshiftRight 6).setWidth 8
  let b2 := ((src.sshiftRight 6).sshiftRight 6).setWidth 8
  let b3 := (((src.sshiftRight 6).sshiftRight 6).sshiftRight 6).setWidth 8
  ((b3 ++ b2 ++ b1 ++ b0 : BitVec 32) &&& 0x3f3f3f3f) <<< 2

/-! ## The tables of the standard -/

def ipTab : List Nat :=
  [58, 50, 42, 34, 26, 18, 10, 2,
   60, 52, 44, 36, 28, 20, 12, 4,
   62, 54, 46, 38, 30, 22, 14, 6,
   64, 56, 48, 40, 32, 24, 16, 8,
   57, 49, 41, 33, 25, 17, 9, 1,
   59, 51, 43, 35, 27, 19, 11, 3,
   61, 53, 45, 37, 29, 21, 13, 5,
   63, 55, 47, 39, 31, 23, 15, 7]

def expandTr : List Nat :=
  [32, 1, 2, 3, 4, 5, 4, 5, 6, 7, 8, 9,
   8, 9, 10, 11, 12, 13, 12, 13, 14, 15, 16, 17,
   16, 17, 18, 19, 20, 21, 20, 21, 22, 23, 24, 25,
   24, 25, 26, 27, 28, 29, 28, 29, 30, 31, 32, 1]

def pc1 : List Nat :=
  [57, 49, 41, 33, 25, 17, 9, 1, 58, 50, 42, 34, 26, 18,
   10, 2, 59, 51, 43, 35, 27, 19, 11, 3, 60, 52, 44, 36,
   63, 55, 47, 39, 31, 23, 15, 7, 62, 54, 46, 38, 30, 22,
   14, 6, 61, 53, 45, 37, 29, 21, 13, 5, 28, 20, 12, 4]

def rotates : List Nat :=
  [1, 1, 2, 2, 2, 2, 2, 2, 1, 2, 2, 2, 2, 2, 2, 1]

/-- Each row of six has two more bits in front, which make it invertible. -/
def pc2 : List Nat :=
  [9, 18, 14, 17, 11, 24, 1, 5,
   22, 25, 3, 28, 15, 6, 21, 10,
   35, 38, 23, 19, 12, 4, 26, 8,
   43, 54, 16, 7, 27, 20, 13, 2,
   0, 0, 41, 52, 31, 37, 47, 55,
   0, 0, 30, 40, 51, 45, 33, 48,
   0, 0, 44, 49, 39, 56, 34, 53,
   0, 0, 46, 42, 50, 36, 29, 32]

def sTab : List (List Nat) :=
  [[14, 4, 13, 1, 2, 15, 11, 8, 3, 10, 6, 12, 5, 9, 0, 7,
    0, 15, 7, 4, 14, 2, 13, 1, 10, 6, 12, 11, 9, 5, 3, 8,
    4, 1, 14, 8, 13, 6, 2, 11, 15, 12, 9, 7, 3, 10, 5, 0,
    15, 12, 8, 2, 4, 9, 1, 7, 5, 11, 3, 14, 10, 0, 6, 13],
   [15, 1, 8, 14, 6, 11, 3, 4, 9, 7, 2, 13, 12, 0, 5, 10,
    3, 13, 4, 7, 15, 2, 8, 14, 12, 0, 1, 10, 6, 9, 11, 5,
    0, 14, 7, 11, 10, 4, 13, 1, 5, 8, 12, 6, 9, 3, 2, 15,
    13, 8, 10, 1, 3, 15, 4, 2, 11, 6, 7, 12, 0, 5, 14, 9],
   [10, 0, 9, 14, 6, 3, 15, 5, 1, 13, 12, 7, 11, 4, 2, 8,
    13, 7, 0, 9, 3, 4, 6, 10, 2, 8, 5, 14, 12, 11, 15, 1,
    13, 6, 4, 9, 8, 15, 3, 0, 11, 1, 2, 12, 5, 10, 14, 7,
    1, 10, 13, 0, 6, 9, 8, 7, 4, 15, 14, 3, 11, 5, 2, 12],
   [7, 13, 14, 3, 0, 6, 9, 10, 1, 2, 8, 5, 11, 12, 4, 15,
    13, 8, 11, 5, 6, 15, 0, 3, 4, 7, 2, 12, 1, 10, 14, 9,
    10, 6, 9, 0, 12, 11, 7, 13, 15, 1, 3, 14, 5, 2, 8, 4,
    3, 15, 0, 6, 10, 1, 13, 8, 9, 4, 5, 11, 12, 7, 2, 14],
   [2, 12, 4, 1, 7, 10, 11, 6, 8, 5, 3, 15, 13, 0, 14, 9,
    14, 11, 2, 12, 4, 7, 13, 1, 5, 0, 15, 10, 3, 9, 8, 6,
    4, 2, 1, 11, 10, 13, 7, 8, 15, 9, 12, 5, 6, 3, 0, 14,
    11, 8, 12, 7, 1, 14, 2, 13, 6, 15, 0, 9, 10, 4, 5, 3],
   [12, 1, 10, 15, 9, 2, 6, 8, 0, 13, 3, 4, 14, 7, 5, 11,
    10, 15, 4, 2, 7, 12, 9, 5, 6, 1, 13, 14, 0, 11, 3, 8,
    9, 14, 15, 5, 2, 8, 12, 3, 7, 0, 4, 10, 1, 13, 11, 6,
    4, 3, 2, 12, 9, 5, 15, 10, 11, 14, 1, 7, 6, 0, 8, 13],
   [4, 11, 2, 14, 15, 0, 8, 13, 3, 12, 9, 7, 5, 10, 6, 1,
    13, 0, 11, 7, 4, 9, 1, 10, 14, 3, 5, 12, 2, 15, 8, 6,
    1, 4, 11, 13, 12, 3, 7, 14, 10, 15, 6, 8, 0, 5, 9, 2,
    6, 11, 13, 8, 1, 4, 10, 7, 9, 5, 0, 15, 14, 2, 3, 12],
   [13, 2, 8, 4, 6, 15, 11, 1, 10, 9, 3, 14, 5, 0, 12, 7,
    1, 15, 13, 8, 10, 3, 7, 4, 12, 5, 6, 11, 0, 14, 9, 2,
    7, 11, 4, 1, 9, 12, 14, 2, 0, 6, 10, 13, 15, 3, 5, 8,
    2, 1, 14, 7, 4, 10, 8, 13, 15, 12, 9, 0, 3, 5, 6, 11]]

def p32Tr : List Nat :=
  [16, 7, 20, 21, 29, 12, 28, 17,
   1, 15, 23, 26, 5, 18, 31, 10,
   2, 8, 24, 14, 32, 27, 3, 9,
   19, 13, 30, 6, 22, 11, 4, 25]

def cifp : List Nat :=
  [1, 2, 3, 4, 17, 18, 19, 20,
   5, 6, 7, 8, 21, 22, 23, 24,
   9, 10, 11, 12, 25, 26, 27, 28,
   13, 14, 15, 16, 29, 30, 31, 32,
   33, 34, 35, 36, 49, 50, 51, 52,
   37, 38, 39, 40, 53, 54, 55, 56,
   41, 42, 43, 44, 57, 58, 59, 60,
   45, 46, 47, 48, 61, 62, 63, 64]

/-! ## The permutations -/

/-- One output bit of `init_perm`: it is set in the entries of its chunk whose value has
the bit it comes from. -/
def initPermStep (p : Nat → Nat) (perm : Nat → Nat → CBlock) (k : Nat) : Nat → Nat → CBlock :=
  if p k = 0 then perm
  else
    let l := p k - 1
    fun i j =>
      if i = l >>> 2 ∧ j &&& 1 <<< (l &&& 3) ≠ 0 then perm i j ||| 1#64 <<< k else perm i j

def initPerm (p : Nat → Nat) (charsOut : Nat) : Nat → Nat → CBlock :=
  (List.range (charsOut * 8)).foldl (initPermStep p) fun _ _ => 0#64

/-- `permute`: two chunks of each byte. -/
def permute (cp : Nat → BitVec 8) (p : Nat → Nat → CBlock) (charsIn : Nat) : CBlock :=
  (List.range charsIn).foldl (fun d c =>
    d ||| p (2 * c) (cp c &&& 0xf).toNat ||| p (2 * c + 1) (cp c >>> 4).toNat) 0#64

/-- The bit from the other end of its byte. -/
def byteRev (k : Nat) : Nat :=
  if 0 < k then ((k - 1) ||| 7) - ((k - 1) &&& 7) + 1 else k

/-- `perm` for `PC1ROT`. -/
def pc1RotPerm (i : Nat) : Nat :=
  if pc2.getD i 0 = 0 then 0
  else
    let k := pc2.getD i 0 + (rotates.getD 0 0 - 1)
    let k := if k % 28 < rotates.getD 0 0 then k - 28 else k
    byteRev (pc1.getD k 0)

def pc2Inv : Nat → Nat :=
  (List.range 64).foldl (fun inv i =>
    if pc2.getD i 0 = 0 then inv else Function.update inv (pc2.getD i 0 - 1) (i + 1)) fun _ => 0

/-- `perm` for `PC2ROT[j]`. -/
def pc2RotPerm (j i : Nat) : Nat :=
  if pc2.getD i 0 = 0 then 0
  else
    let k := pc2.getD i 0 + j
    let k := if k % 28 ≤ j then k - 28 else k
    pc2Inv k

/-- `perm` for `IE3264`, by the position in the output. -/
def iePerm (m : Nat) : Nat :=
  let k := if m % 8 < 2 then 0 else ipTab.getD (expandTr.getD (m / 8 * 6 + m % 8 - 2) 0 - 1) 0
  let k := if 32 < k then k - 32 else if 0 < k then k - 1 else k
  byteRev k

/-- `perm` for `CF6464`, which is filled in at the positions it maps to. -/
def cfPerm : Nat → Nat :=
  (List.range 64).foldl (fun perm i =>
    Function.update perm (byteRev (ipTab.getD (cifp.getD i 0 - 1) 0) - 1) (i + 1)) iePerm

def pc1Rot : Nat → Nat → CBlock := initPerm pc1RotPerm 8

def pc2Rot (j : Nat) : Nat → Nat → CBlock := initPerm (pc2RotPerm j) 8

def ie3264 : Nat → Nat → CBlock := initPerm iePerm 8

def cf6464 : Nat → Nat → CBlock := initPerm cfPerm 8

/-! ## The tables of S, P and E -/

/-- What S box `tableno` makes of the six bits `j`, first bit lowest in both. -/
def sOut (tableno j : Nat) : Nat :=
  let k := ((j >>> 0) &&& 1) <<< 5 ||| ((j >>> 1) &&& 1) <<< 3 ||| ((j >>> 2) &&& 1) <<< 2 |||
    ((j >>> 3) &&& 1) <<< 1 ||| ((j >>> 4) &&& 1) <<< 0 ||| ((j >>> 5) &&& 1) <<< 4
  let k := (sTab.getD tableno []).getD k 0
  ((k >>> 3) &&& 1) <<< 0 ||| ((k >>> 2) &&& 1) <<< 1 ||| ((k >>> 1) &&& 1) <<< 2 |||
    ((k >>> 0) &&& 1) <<< 3

def tmp32 (tableno j m : Nat) : Nat :=
  if 4 * tableno ≤ m ∧ m < 4 * tableno + 4 then (sOut tableno j >>> (m - 4 * tableno)) &&& 1
  else 0

/-- `SPE[h][tableno][j]`. -/
def spe (h tableno j : Nat) : BitVec 32 :=
  toSixBit ((List.range 24).foldr (fun i k =>
    k <<< 1 ||| BitVec.ofNat 32 (tmp32 tableno j (p32Tr.getD (expandTr.getD (i + 24 * h) 0 - 1) 0
      - 1))) 0#32)

/-! ## Keys and cipher -/

/-- `K` of `des_setkey` when key `i` has been made. -/
def keyReg (key : CBlock) : Nat → CBlock
  | 0 => permute (blockB key) pc1Rot 8
  | i + 1 => permute (blockB (keyReg key i)) (pc2Rot (rotates.getD (i + 1) 0 - 1)) 8

/-- `des_setkey`: the key schedule, with the low bits cleared. -/
def desSetkey (key : CBlock) (i : Nat) : CBlock :=
  store (blockI0 (keyReg key i) &&& ~~~0x03030303) (blockI1 (keyReg key i))

/-- `SPTAB`: the byte is an offset in a table of integers. -/
def sptab (t : Nat → BitVec 32) (b : BitVec 8) : BitVec 32 := t (b.toNat / 4)

/-- `DOXOR`. -/
def doxor (b p : CBlock) (i : Nat) : CBlock :=
  store (blockI0 p ^^^ sptab (spe 0 i) (blockB b i)) (blockI1 p ^^^ sptab (spe 1 i) (blockB b i))

/-- `CRUNCH`. -/
def crunch (salt : BitVec 32) (kp p q : CBlock) : CBlock :=
  let k := (blockI0 q ^^^ blockI1 q) &&& salt
  let b := store (k ^^^ blockI0 q ^^^ blockI0 kp) (k ^^^ blockI1 q ^^^ blockI1 kp)
  (List.range 8).foldl (doxor b) p

/-- The inner loop: two rounds at a time, with the keys in the order `kp` goes. -/
def rounds (salt : BitVec 32) (kp : Nat → CBlock) (s : CBlock × CBlock) : CBlock × CBlock :=
  (List.range 8).foldl (fun s i =>
    let l := crunch salt (kp (2 * i)) s.1 s.2
    let r := crunch salt (kp (2 * i + 1)) s.2 l
    (l, r)) s

/-- The three assignments that swap L and R. -/
def swapLR (s : CBlock × CBlock) : CBlock × CBlock :=
  let l := s.1 ^^^ s.2
  let r := s.2 ^^^ l
  (l ^^^ r, r)

/-- The even-numbered input bits. -/
def evenBits (b : CBlock) : BitVec 32 :=
  (blockI0 b &&& 0x55555555) <<< 1 ||| (blockI1 b &&& 0x55555555)

/-- The odd-numbered input bits. -/
def oddBits (b : CBlock) : BitVec 32 :=
  (blockI0 b &&& 0xaaaaaaaa) ||| ((blockI1 b).sshiftRight 1 &&& 0x55555555)

/-- Where the code starts from: the two halves, expanded. -/
def loadLR (input : CBlock) : CBlock × CBlock :=
  let b := store (evenBits input) (oddBits input)
  (permute (blockB b) ie3264 4, permute (fun j => blockB b (j + 4)) ie3264 4)

/-- Four bits of each byte of a half. -/
def compress (i0 i1 : BitVec 32) : BitVec 32 :=
  (i0.sshiftRight 3 &&& 0x0f0f0f0f#32) ||| (i1 <<< 1 &&& 0xf0f0f0f0#32)

/-- What the code ends with. -/
def storeLR (s : CBlock × CBlock) : CBlock :=
  let b := store (compress (blockI0 s.1) (blockI1 s.1)) (compress (blockI0 s.2) (blockI1 s.2))
  permute (blockB b) cf6464 8

/-- `des_cipher`, on the key schedule `ks`. -/
def desCipher (ks : Nat → CBlock) (input : CBlock) (salt : BitVec 32) (numIter : Int) : CBlock :=
  let kp := fun i => if 0 ≤ numIter then ks i else ks (15 - i)
  storeLR ((fun s => swapLR (rounds (toSixBit salt) kp s))^[numIter.natAbs] (loadLR input))

end VxWorks.Ppp.Crypt
