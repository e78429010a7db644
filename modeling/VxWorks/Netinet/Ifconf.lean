import Mathlib.Data.List.GetD
import Mathlib.Data.List.TakeWhile
import VxWorks.Netinet.IfList

/-!
# The list of addresses for a program (if.c)

`ifconf` copies an entry for each address of each interface to a buffer that a
program has given it, as long as there is room, and gives back in `ifc_len` how
much it has written. An entry is the interface's name and the address; most
addresses have room in a `struct sockaddr`, and a longer one makes the entry
longer.

The room that is left is an `int`, and `sizeof` is unsigned, so that the room is
taken for unsigned where the two are compared: less than none is more than
enough. What a longer address takes beyond a `struct sockaddr` is subtracted
before the comparison.

An address is at least as long as a `struct sockaddr` in memory. `ifunit`, which
is not part of the sources, is a parameter: it finds an interface by its name
with the unit behind it. `copyout` is `bcopy` and does not fail.
-/

namespace VxWorks.Netinet

open VxWorks.Lib

/-! ## The code -/

/-- The memory from `sa_len` on. -/
def Sockaddr.mem (sa : Sockaddr) : Buf
  | 0 => sa.len
  | 1 => sa.family
  | k + 2 => sa.data k

/-- A `copyout`: the place, counted from `ifc_req` on, and the octets. -/
structure Copyout where
  dst : Nat
  octets : List UInt8
deriving DecidableEq

/-- `ifr` is the local `struct ifreq`, with the name in its first 16 octets, the address behind. -/
structure Ifconf where
  space : Int32
  ifrp : Nat
  ifr : Buf
  out : List Copyout

/-- `strncpy` -/
def strncpy (s : List UInt8) (n : Nat) : List UInt8 := (s ++ List.replicate n 0).take n

/-- The name and one octet for the unit. -/
def ifrName (ifp : Ifnet) (ifr : Buf) : Buf :=
  let ifr := ifr.putAt 0 (strncpy ifp.name 14)
  let cp := ((List.range 14).find? fun k => ifr k == 0).getD 14
  (ifr.set8 cp (0x30 + ifp.unit.toInt8.toUInt8)).set8 (cp + 1) 0

/-- `space > sizeof (ifr)` -/
def Ifconf.more (s : Ifconf) : Prop := 32 < s.space.toUInt32

instance (s : Ifconf) : Decidable s.more := inferInstanceAs (Decidable (_ < _))

/-- `ifr` as it is, at `ifrp`. -/
def ifconfCopy (s : Ifconf) : Ifconf :=
  { s with space := s.space - 32, ifrp := s.ifrp + 32
           out := s.out ++ [⟨s.ifrp, s.ifr.take 32⟩] }

/-- One address, and whether the loop is left at it. -/
def ifconfAddr (sa : Sockaddr) (s : Ifconf) : Ifconf × Bool :=
  if sa.len ≤ 16 then
    (ifconfCopy { s with ifr := s.ifr.putAt 16 (sa.mem.take 16) }, false)
  else
    let space := s.space - (Int32.ofNat sa.len.toNat - 16)
    if space.toUInt32 < 32 then ({ s with space }, true)
    else
      ({ s with space := space - 32, ifrp := s.ifrp + 16 + sa.len.toNat
                out := s.out ++ [⟨s.ifrp, s.ifr.take 16⟩,
                  ⟨s.ifrp + 16, sa.mem.take sa.len.toNat⟩] }, false)

/-- The inner loop. -/
def ifconfAddrs : List Ifaddr → Ifconf → Ifconf
  | [], s => s
  | ifa :: l, s =>
      if s.more then
        match ifconfAddr ifa.addr s with
        | (s, true) => s
        | (s, false) => ifconfAddrs l s
      else s

/-- The outer loop. -/
def ifconfIfs : List Ifnet → Ifconf → Ifconf
  | [], s => s
  | ifp :: l, s =>
      if s.more then
        let s := { s with ifr := ifrName ifp s.ifr }
        ifconfIfs l
          (if ifp.addrlist = [] then
            ifconfCopy { s with ifr := s.ifr.putAt 16 (List.replicate 16 0) }
          else ifconfAddrs ifp.addrlist s)
      else s

/-- `ifconf`: the new `ifc_len`, and what has been copied out. -/
def ifconf (ifnet : List Ifnet) (ifr : Buf) (ifcLen : Int32) : Int32 × List Copyout :=
  let s := ifconfIfs ifnet ⟨ifcLen, 0, ifr, []⟩
  (ifcLen - s.space, s.out)

/-! ## What it should list -/

/-- The interfaces with their addresses, in order; one without an address is listed without. -/
def ifconfPairs (ifnet : List Ifnet) : List (Ifnet × Option Sockaddr) :=
  ifnet.flatMap fun ifp =>
    if ifp.addrlist = [] then [(ifp, none)] else ifp.addrlist.map fun ifa => (ifp, some ifa.addr)

def entrySize : Option Sockaddr → Nat
  | none => 32
  | some sa => if sa.len ≤ 16 then 32 else 16 + sa.len.toNat

/-- The entry at `a` that has this in its name field. -/
def entry (a : Nat) (name : List UInt8) : Option Sockaddr → List Copyout
  | none => [⟨a, name ++ List.replicate 16 0⟩]
  | some sa =>
      if sa.len ≤ 16 then [⟨a, name ++ sa.mem.take 16⟩]
      else [⟨a, name⟩, ⟨a + 16, sa.mem.take sa.len.toNat⟩]

/-- The string in a name field. -/
def cstr (name : List UInt8) : List UInt8 := name.takeWhile (· != 0)

/-- From `a` on the entries of these, each behind the one before it, and each with a name by which
`ifunit` finds the interface. -/
inductive Entries (ifunit : List UInt8 → Option Nat) :
    Nat → List (Ifnet × Option Sockaddr) → List Copyout → Prop where
  | nil (a : Nat) : Entries ifunit a [] []
  | cons {a : Nat} {name : List UInt8} {p : Ifnet × Option Sockaddr}
      {ps : List (Ifnet × Option Sockaddr)} {out : List Copyout} (hfield : name.length = 16)
      (hname : ifunit (cstr name) = some p.1.ifp) (h : Entries ifunit (a + entrySize p.2) ps out) :
      Entries ifunit a (p :: ps) (entry a name p.2 ++ out)

def copied (out : List Copyout) : Nat := (out.map fun c => c.octets.length).sum

/-- What `ifconf` gives back for a buffer of `len` octets: nothing is written behind them, the
length is that of what is written, and that is an entry for each of the first addresses. -/
structure Lists (ifunit : List UInt8 → Option Nat) (ifnet : List Ifnet) (len : Int32)
    (r : Int32 × List Copyout) : Prop where
  within : ∀ c ∈ r.2, ((c.dst + c.octets.length : Nat) : Int) ≤ len.toInt
  length : r.1.toInt = copied r.2
  entries : ∃ ps, ps <+: ifconfPairs ifnet ∧ Entries ifunit 0 ps r.2

/-- `ifunit` finds the interface by its name with the unit behind it, and by nothing else that is
the start of its name with some octet behind. -/
def FindsUnit (ifunit : List UInt8 → Option Nat) (ifp : Ifnet) : Prop :=
  ∀ c name, name <+: ifp.name.take 14 ++ [c] → (ifunit name = some ifp.ifp ↔ name = ifp.unitname)

/-- The name fits, and the unit is one digit. -/
def ShortName (ifp : Ifnet) : Prop := ifp.name.length ≤ 14 ∧ 0 ≤ ifp.unit ∧ ifp.unit < 10

/-- The octets of the entries. -/
def entriesSize (ps : List (Ifnet × Option Sockaddr)) : Nat :=
  (ps.map fun p => entrySize p.2).sum

/-- As long as more than 32 octets are left for an entry, they are enough, and the name is short. -/
def EntriesFit (n : Nat) (ps : List (Ifnet × Option Sockaddr)) : Prop :=
  ∀ qs p, qs ++ [p] <+: ps → entriesSize qs + 32 < n →
    entriesSize qs + entrySize p.2 ≤ n ∧ ShortName p.1

/-! ## The name -/

theorem digit_cases {u : Int16} (h : 0 ≤ u ∧ u < 10) : ∃ n < 10, u = Int16.ofNat n := by
  have hlow := Int16.le_iff_toInt_le.mp h.1
  have hhigh := Int16.lt_iff_toInt_lt.mp h.2
  have hzero : (0 : Int16).toInt = 0 := rfl
  have hten : (10 : Int16).toInt = 10 := rfl
  rw [hzero] at hlow
  rw [hten] at hhigh
  refine ⟨u.toInt.toNat, by omega, ?_⟩
  rw [← Int16.ofInt_eq_ofNat, Int.toNat_of_nonneg hlow, Int16.ofInt_toInt]

/-- A unit of one digit is what the octet for the unit says. -/
theorem sprintD_digit {u : Int16} (h : 0 ≤ u ∧ u < 10) :
    sprintD u.toInt32.toUInt32.toNat = [0x30 + u.toInt8.toUInt8] ∧
      0x30 + u.toInt8.toUInt8 ≠ 0 := by
  obtain ⟨n, hn, rfl⟩ := digit_cases h
  have hall : ∀ n < 10, sprintD (Int16.ofNat n).toInt32.toUInt32.toNat =
      [0x30 + (Int16.ofNat n).toInt8.toUInt8] ∧ 0x30 + (Int16.ofNat n).toInt8.toUInt8 ≠ 0 := by
    decide
  exact hall n hn

theorem toNat_toUInt32 (x : Int32) : (x.toUInt32.toNat : Int) = x.toInt % 2 ^ 32 := by
  have hbmod : x.toInt = Int.bmod x.toUInt32.toNat (2 ^ 32) := BitVec.toInt_eq_toNat_bmod _
  have hlt : x.toUInt32.toNat < 2 ^ 32 := x.toUInt32.toNat_lt
  rw [hbmod]
  have hemod := Int.bmod_emod (x := (x.toUInt32.toNat : Int)) (m := 2 ^ 32)
  omega

/-- Only one digit. -/
theorem length_sprintD {u : Int16} (h : ¬ (0 ≤ u ∧ u < 10)) :
    2 ≤ (sprintD u.toInt32.toUInt32.toNat).length := by
  have hten : 10 ≤ u.toInt32.toUInt32.toNat := by
    have hval := toNat_toUInt32 u.toInt32
    rw [Int16.toInt_toInt32] at hval
    have hlow := u.le_toInt
    have hhigh := u.toInt_lt
    rw [Int16.le_iff_toInt_le, Int16.lt_iff_toInt_lt] at h
    have hzero : (0 : Int16).toInt = 0 := rfl
    have hten : (10 : Int16).toInt = 10 := rfl
    omega
  by_contra hcon
  rw [sprintD, List.length_map] at hcon
  have hlt := (Nat.length_toDigits_le_iff (n := u.toInt32.toUInt32.toNat) (k := 1) (b := 10)
    (by omega) (by omega)).mp (by omega)
  omega

theorem length_strncpy (s : List UInt8) (n : Nat) : (strncpy s n).length = n := by
  simp [strncpy]

theorem strncpy_getD (s : List UInt8) {n i : Nat} (h : i < n) :
    (strncpy s n).getD i 0 = s.getD i 0 := by
  simp only [strncpy, List.getD_eq_getElem?_getD, List.getElem?_take_of_lt h,
    List.getElem?_append, List.getElem?_replicate]
  split
  · rfl
  · rw [List.getElem?_eq_none (by omega)]
    split
    · rfl
    · rfl

theorem ifrName_apply {ifp : Ifnet} (hname : 0 ∉ ifp.name) (ifr : Buf) (i : Nat) :
    ifrName ifp ifr i =
      if i < min ifp.name.length 14 then ifp.name.getD i 0
      else if i = min ifp.name.length 14 then 0x30 + ifp.unit.toInt8.toUInt8
      else if i < 14 ∨ i = min ifp.name.length 14 + 1 then 0
      else ifr i := by
  have hput : ∀ k, ifr.putAt 0 (strncpy ifp.name 14) k =
      if k < 14 then ifp.name.getD k 0 else ifr k := by
    intro k
    rw [Buf.putAt, length_strncpy]
    by_cases hk : k < 14
    · rw [if_pos (by omega), if_pos hk, Nat.sub_zero, strncpy_getD _ hk]
    · rw [if_neg (by omega), if_neg hk]
  have hnull : ∀ k, k < ifp.name.length → ifp.name.getD k 0 ≠ 0 := by
    intro k hk hcon
    rw [List.getD_eq_getElem _ _ hk] at hcon
    exact hname (hcon ▸ List.getElem_mem hk)
  have hcp : ((List.range 14).find? fun k => ifr.putAt 0 (strncpy ifp.name 14) k == 0).getD 14 =
      min ifp.name.length 14 := by
    by_cases hlen : ifp.name.length < 14
    · have hfind : (List.range 14).find? (fun k => ifr.putAt 0 (strncpy ifp.name 14) k == 0) =
          some ifp.name.length := by
        refine List.find?_range_eq_some.mpr ⟨?_, List.mem_range.mpr hlen, fun j hj => ?_⟩
        · rw [hput, if_pos hlen, List.getD_eq_default _ _ (Nat.le_refl _)]
          rfl
        · rw [hput, if_pos (by omega), Bool.not_eq_true', beq_eq_false_iff_ne]
          exact hnull j hj
      rw [hfind, Option.getD_some]
      omega
    · have hfind : (List.range 14).find? (fun k => ifr.putAt 0 (strncpy ifp.name 14) k == 0) =
          none := by
        refine List.find?_range_eq_none.mpr fun j hj => ?_
        rw [hput, if_pos hj, Bool.not_eq_true', beq_eq_false_iff_ne]
        exact hnull j (by omega)
      rw [hfind, Option.getD_none]
      omega
  rw [ifrName]
  rw [hcp, Buf.set8, Buf.set8, hput]
  by_cases hlt : i < min ifp.name.length 14
  · rw [if_neg (by omega), if_neg (by omega), if_pos (by omega), if_pos hlt]
  rw [if_neg hlt]
  by_cases heq : i = min ifp.name.length 14
  · rw [if_neg (by omega), if_pos heq, if_pos heq]
  by_cases hnext : i = min ifp.name.length 14 + 1
  · rw [if_pos hnext, if_neg heq, if_pos (Or.inr hnext)]
  rw [if_neg hnext, if_neg heq, if_neg heq]
  by_cases hin : i < 14
  · rw [if_pos hin, if_pos (.inl hin), List.getD_eq_default _ _ (by omega)]
  · rw [if_neg hin, if_neg (by omega)]

theorem ifrName_ifrName {ifp : Ifnet} (hname : 0 ∉ ifp.name) (ifr : Buf) :
    ifrName ifp (ifrName ifp ifr) = ifrName ifp ifr := by
  funext i
  rw [ifrName_apply hname, ifrName_apply hname]
  split
  · rfl
  split
  · rfl
  split
  · rfl
  · rfl

theorem ifrName_putAt {ifp : Ifnet} (hname : 0 ∉ ifp.name) {ifr : Buf}
    (h : ifrName ifp ifr = ifr) (l : List UInt8) :
    ifrName ifp (ifr.putAt 16 l) = ifr.putAt 16 l := by
  funext i
  have hsame := congrFun h i
  rw [ifrName_apply hname] at hsame ⊢
  by_cases hi : i < 16
  · rw [Buf.putAt, if_neg (c := _ ∧ _) (by omega)]
    exact hsame
  · rw [if_neg (by omega), if_neg (by omega), if_neg (by omega)]

/-- What is in the name field, as a string. -/
theorem cstr_ifrName {ifp : Ifnet} (hname : 0 ∉ ifp.name) (ifr : Buf) :
    cstr ((ifrName ifp ifr).take 16) =
      cstr (ifp.name.take 14 ++ [0x30 + ifp.unit.toInt8.toUInt8]) := by
  have hle : min ifp.name.length 14 ≤ 14 := Nat.min_le_right ..
  have hfront : (ifrName ifp ifr).slice 0 (min ifp.name.length 14) = ifp.name.take 14 := by
    refine List.ext_getElem (by simp [Nat.min_comm]) ?_
    intro i hi _
    rw [Buf.length_slice] at hi
    rw [List.getElem_take]
    simp only [Buf.slice, List.getElem_map, List.getElem_range, Nat.zero_add]
    rw [ifrName_apply hname, if_pos hi, List.getD_eq_getElem _ _ (by omega)]
  have hunit : (ifrName ifp ifr) (min ifp.name.length 14) = 0x30 + ifp.unit.toInt8.toUInt8 := by
    rw [ifrName_apply hname, if_neg (by omega), if_pos rfl]
  have hnull : (ifrName ifp ifr) (min ifp.name.length 14 + 1) = 0 := by
    rw [ifrName_apply hname, if_neg (by omega), if_neg (by omega), if_pos (.inr rfl)]
  have hsplit : (ifrName ifp ifr).take 16 =
      ifp.name.take 14 ++ ([0x30 + ifp.unit.toInt8.toUInt8] ++
        0 :: (ifrName ifp ifr).slice (min ifp.name.length 14 + 2)
          (14 - min ifp.name.length 14)) := by
    have hlen : 16 = min ifp.name.length 14 + (14 - min ifp.name.length 14 + 1 + 1) := by omega
    rw [← Buf.slice_zero_eq_take]
    conv_lhs => rw [hlen]
    rw [Buf.slice_add, hfront, Nat.zero_add, Buf.slice_succ, Buf.slice_succ, hunit, hnull]
    rfl
  rw [hsplit, ← List.append_assoc, cstr, cstr, List.takeWhile_append]
  split
  · next hall =>
      rw [List.takeWhile_cons_of_neg (by decide), List.append_nil]
      exact ((List.takeWhile_prefix _).eq_of_length hall).symm
  · rfl

/-- `ifunit` finds the interface by what is in the name field just when the name is short. -/
theorem ifunit_ifrName {ifunit : List UInt8 → Option Nat} {ifp : Ifnet} (hname : 0 ∉ ifp.name)
    (hunit : FindsUnit ifunit ifp) (ifr : Buf) :
    ifunit (cstr ((ifrName ifp ifr).take 16)) = some ifp.ifp ↔ ShortName ifp := by
  rw [cstr_ifrName hname, cstr, hunit _ _ (List.takeWhile_prefix _), Ifnet.unitname]
  constructor
  · intro heq
    have hlen := (List.takeWhile_prefix
      (l := ifp.name.take 14 ++ [0x30 + ifp.unit.toInt8.toUInt8]) (· != 0)).length_le
    rw [heq, List.length_append, List.length_append, List.length_take, List.length_singleton] at hlen
    by_cases hdigit : 0 ≤ ifp.unit ∧ ifp.unit < 10
    · have hone := congrArg List.length (sprintD_digit hdigit).1
      rw [List.length_singleton] at hone
      exact ⟨by omega, hdigit⟩
    · have htwo := length_sprintD hdigit
      omega
  · rintro ⟨hlen, hdigit⟩
    obtain ⟨hsprint, hnull⟩ := sprintD_digit hdigit
    rw [List.take_of_length_le hlen, hsprint]
    refine List.takeWhile_eq_self_iff.mpr ?_
    intro c hc
    rcases List.mem_append.mp hc with hc | hc
    · exact bne_iff_ne.mpr fun hcon => hname (hcon ▸ hc)
    · exact bne_iff_ne.mpr (List.mem_singleton.mp hc ▸ hnull)

/-! ## One loop -/

/-- One pair, with everything that the two loops do for it. -/
def ifconfPair (s : Ifconf) (p : Ifnet × Option Sockaddr) : Ifconf :=
  if s.more then
    let s := { s with ifr := ifrName p.1 s.ifr }
    match p.2 with
    | none => ifconfCopy { s with ifr := s.ifr.putAt 16 (List.replicate 16 0) }
    | some sa => (ifconfAddr sa s).1
  else s

theorem foldl_ifconfPair_stop {s : Ifconf} (h : ¬ s.more) (ps : List (Ifnet × Option Sockaddr)) :
    ps.foldl ifconfPair s = s := by
  induction ps with
  | nil => rfl
  | cons p ps ih => rw [List.foldl_cons, ifconfPair, if_neg h, ih]

theorem ifconfPair_named {s : Ifconf} (hmore : s.more) {p : Ifnet × Option Sockaddr}
    (hname : 0 ∉ p.1.name) :
    ifconfPair { s with ifr := ifrName p.1 s.ifr } p = ifconfPair s p := by
  have hmore' : ({ s with ifr := ifrName p.1 s.ifr } : Ifconf).more := hmore
  rw [ifconfPair, ifconfPair, if_pos hmore, if_pos hmore']
  simp only [ifrName_ifrName hname]

/-- Where there is no room for an address there is none for another. -/
theorem more_of_ifconfAddr {sa : Sockaddr} {s : Ifconf} (h : (ifconfAddr sa s).2 = true) :
    ¬ (ifconfAddr sa s).1.more := by
  rw [ifconfAddr] at h ⊢
  split
  · next hlen =>
      rw [if_pos hlen] at h
      cases h
  · next hlen =>
      rw [if_neg hlen] at h
      dsimp only at h ⊢
      split
      · next hroom =>
          intro hmore
          exact absurd hroom (UInt32.not_lt.mpr (UInt32.le_of_lt hmore))
      · next hroom =>
          rw [if_neg hroom] at h
          cases h

theorem ifrName_ifconfAddr {ifp : Ifnet} (hname : 0 ∉ ifp.name) {sa : Sockaddr} {s : Ifconf}
    (h : ifrName ifp s.ifr = s.ifr) :
    ifrName ifp (ifconfAddr sa s).1.ifr = (ifconfAddr sa s).1.ifr := by
  rw [ifconfAddr]
  split
  · exact ifrName_putAt hname h _
  · dsimp only
    split
    · exact h
    · exact h

theorem ifconfAddrs_pairs {ifp : Ifnet} (hname : 0 ∉ ifp.name) (l : List Ifaddr) {s : Ifconf}
    (hnamed : ifrName ifp s.ifr = s.ifr) :
    ifconfAddrs l s = (l.map fun ifa => (ifp, some ifa.addr)).foldl ifconfPair s := by
  induction l generalizing s with
  | nil => rfl
  | cons ifa l ih =>
      rw [ifconfAddrs, List.map_cons, List.foldl_cons]
      by_cases hmore : s.more
      · have hpair : ifconfPair s (ifp, some ifa.addr) = (ifconfAddr ifa.addr s).1 := by
          rw [ifconfPair, if_pos hmore]
          dsimp only
          rw [hnamed]
        rw [if_pos hmore, hpair]
        split
        · next s' hs' =>
            have hstop := more_of_ifconfAddr (congrArg Prod.snd hs')
            rw [hs'] at hstop ⊢
            rw [foldl_ifconfPair_stop hstop]
        · next s' hs' =>
            have hkept : ifrName ifp (ifconfAddr ifa.addr s).1.ifr = (ifconfAddr ifa.addr s).1.ifr :=
              ifrName_ifconfAddr hname hnamed
            rw [hs'] at hkept ⊢
            exact ih hkept
      · rw [if_neg hmore, ifconfPair, if_neg hmore, foldl_ifconfPair_stop hmore]

theorem ifconfIfs_pairs {l : List Ifnet} (hname : ∀ ifp ∈ l, 0 ∉ ifp.name) (s : Ifconf) :
    ifconfIfs l s = (ifconfPairs l).foldl ifconfPair s := by
  induction l generalizing s with
  | nil => rfl
  | cons ifp l ih =>
      obtain ⟨hifp, hl⟩ := List.forall_mem_cons.mp hname
      rw [ifconfIfs, ifconfPairs, List.flatMap_cons, List.foldl_append]
      by_cases hmore : s.more
      · rw [if_pos hmore]
        dsimp only
        rw [ih hl, ifconfPairs]
        congr 1
        cases haddr : ifp.addrlist with
        | nil =>
            rw [if_pos rfl, if_pos rfl, List.foldl_cons, List.foldl_nil, ifconfPair, if_pos hmore]
        | cons ifa addrs =>
            have hfirst := ifconfPair_named hmore (p := (ifp, some ifa.addr)) hifp
            have hpairs := ifconfAddrs_pairs hifp (ifa :: addrs)
              (s := { s with ifr := ifrName ifp s.ifr }) (ifrName_ifrName hifp s.ifr)
            rw [if_neg (List.cons_ne_nil _ _), if_neg (List.cons_ne_nil _ _), hpairs,
              List.map_cons, List.foldl_cons, List.foldl_cons, hfirst]
      · rw [if_neg hmore, foldl_ifconfPair_stop hmore, foldl_ifconfPair_stop hmore]

/-! ## An entry -/

theorem copied_append (l m : List Copyout) : copied (l ++ m) = copied l + copied m := by
  rw [copied, copied, copied, List.map_append, List.sum_append]

theorem length_mem_take (sa : Sockaddr) (n : Nat) : (sa.mem.take n).length = n :=
  Buf.length_take _ n

theorem entrySize_ge (o : Option Sockaddr) : 32 ≤ entrySize o := by
  cases o with
  | none => exact Nat.le_refl _
  | some sa =>
      rw [entrySize]
      split
      · exact Nat.le_refl _
      · next hlen =>
          have hlt : 16 < sa.len.toNat := UInt8.lt_iff_toNat_lt.mp (UInt8.not_le.mp hlen)
          omega

theorem entrySize_lt (o : Option Sockaddr) : entrySize o < 272 := by
  cases o with
  | none => decide
  | some sa =>
      rw [entrySize]
      have hlt := sa.len.toNat_lt
      split
      · decide
      · omega

theorem copied_entry (a : Nat) {name : List UInt8} (hfield : name.length = 16)
    (o : Option Sockaddr) : copied (entry a name o) = entrySize o := by
  cases o with
  | none => simp [entry, copied, entrySize, hfield]
  | some sa =>
      rw [entry, entrySize]
      split
      · simp [copied, hfield, length_mem_take]
      · simp [copied, hfield, length_mem_take]

theorem entry_within (a : Nat) {name : List UInt8} (hfield : name.length = 16)
    (o : Option Sockaddr) (c : Copyout) (hc : c ∈ entry a name o) :
    c.dst + c.octets.length ≤ a + entrySize o := by
  cases o with
  | none =>
      obtain rfl := List.mem_singleton.mp hc
      simp [entrySize, hfield]
  | some sa =>
      rw [entry] at hc
      rw [entrySize]
      split at hc
      · next hlen =>
          obtain rfl := List.mem_singleton.mp hc
          simp [hlen, hfield, length_mem_take]
      · next hlen =>
          rw [if_neg hlen]
          rcases List.mem_cons.mp hc with rfl | hc
          · dsimp only
            omega
          · obtain rfl := List.mem_singleton.mp hc
            rw [length_mem_take]
            dsimp only
            omega

/-- An entry that is longer ends with the address. -/
theorem entry_end (a : Nat) (name : List UInt8) {o : Option Sockaddr} (hlong : 32 < entrySize o) :
    ∃ c ∈ entry a name o, c.dst + c.octets.length = a + entrySize o := by
  cases o with
  | none => exact absurd hlong (Nat.lt_irrefl _)
  | some sa =>
      rw [entrySize] at hlong ⊢
      rw [entry]
      split
      · next hlen =>
          rw [if_pos hlen] at hlong
          omega
      · refine ⟨_, List.mem_cons_of_mem _ List.mem_cons_self, ?_⟩
        rw [length_mem_take]
        dsimp only
        omega

theorem entry_inj {a : Nat} {name name' : List UInt8} {o : Option Sockaddr}
    {out out' : List Copyout}
    (h : entry a name o ++ out = entry a name' o ++ out') : name = name' ∧ out = out' := by
  cases o with
  | none =>
      simp only [entry, List.singleton_append, List.cons.injEq, Copyout.mk.injEq] at h
      exact ⟨List.append_cancel_right h.1.2, h.2⟩
  | some sa =>
      rw [entry, entry] at h
      split at h
      · simp only [List.singleton_append, List.cons.injEq, Copyout.mk.injEq] at h
        exact ⟨List.append_cancel_right h.1.2, h.2⟩
      · simp only [List.cons_append, List.cons.injEq, Copyout.mk.injEq] at h
        exact ⟨h.1.2, h.2.2⟩


theorem entries_cons_iff {ifunit : List UInt8 → Option Nat} {a : Nat} {name : List UInt8}
    (hfield : name.length = 16) {p : Ifnet × Option Sockaddr} {ps : List (Ifnet × Option Sockaddr)}
    {out : List Copyout} :
    (∃ qs, qs <+: p :: ps ∧ Entries ifunit a qs (entry a name p.2 ++ out)) ↔
      ifunit (cstr name) = some p.1.ifp ∧
        ∃ qs, qs <+: ps ∧ Entries ifunit (a + entrySize p.2) qs out := by
  constructor
  · rintro ⟨qs, hqs, hentries⟩
    generalize hall : entry a name p.2 ++ out = all at hentries
    cases hentries with
    | nil =>
        have hempty : entry a name p.2 = [] := (List.append_eq_nil_iff.mp hall).1
        have hsize := copied_entry a hfield p.2
        rw [hempty] at hsize
        have hpos : 32 ≤ entrySize p.2 := entrySize_ge p.2
        rw [← hsize] at hpos
        exact absurd hpos (by decide)
    | cons hfield' hname h =>
        obtain ⟨rfl, hps⟩ := List.cons_prefix_cons.mp hqs
        obtain ⟨rfl, rfl⟩ := entry_inj hall
        exact ⟨hname, _, hps, h⟩
  · rintro ⟨hname, qs, hqs, hentries⟩
    exact ⟨p :: qs, List.cons_prefix_cons.mpr ⟨rfl, hqs⟩, .cons hfield hname hentries⟩

theorem entriesFit_of_le {n : Nat} (h : n ≤ 32) (ps : List (Ifnet × Option Sockaddr)) :
    EntriesFit n ps :=
  fun _ _ _ hroom => absurd hroom (by omega)

theorem entriesFit_cons {n : Nat} (h : 32 < n) {p : Ifnet × Option Sockaddr}
    {ps : List (Ifnet × Option Sockaddr)} :
    EntriesFit n (p :: ps) ↔
      entrySize p.2 ≤ n ∧ ShortName p.1 ∧ EntriesFit (n - entrySize p.2) ps := by
  have hsum : ∀ qs, entriesSize (p :: qs) = entrySize p.2 + entriesSize qs := by
    intro qs
    rw [entriesSize, List.map_cons, List.sum_cons, entriesSize]
  constructor
  · intro hfit
    obtain ⟨hsize, hname⟩ := hfit [] p (List.prefix_append [p] ps) (by simpa [entriesSize] using h)
    rw [entriesSize, List.map_nil, List.sum_nil, Nat.zero_add] at hsize
    refine ⟨hsize, hname, ?_⟩
    intro qs q hqs hroom
    have hnext := hfit (p :: qs) q (List.cons_prefix_cons.mpr ⟨rfl, hqs⟩)
      (by rw [hsum]; omega)
    rw [hsum] at hnext
    exact ⟨by omega, hnext.2⟩
  · rintro ⟨hsize, hname, hfit⟩ qs q hqs hroom
    cases qs with
    | nil =>
        obtain ⟨rfl, -⟩ := List.cons_prefix_cons.mp hqs
        exact ⟨by simpa [entriesSize] using hsize, hname⟩
    | cons p' qs =>
        obtain ⟨rfl, htail⟩ := List.cons_prefix_cons.mp hqs
        rw [hsum] at hroom ⊢
        have hnext := hfit qs q htail (by omega)
        exact ⟨by omega, hnext.2⟩

/-! ## The room -/

theorem more_iff {s : Ifconf} {n : Nat} (hspace : s.space.toInt = n) : s.more ↔ 32 < n := by
  have hval := toNat_toUInt32 s.space
  have hhigh := s.space.toInt_lt
  rw [Ifconf.more, UInt32.lt_iff_toNat_lt]
  have hconst : (32 : UInt32).toNat = 32 := rfl
  omega

theorem toInt_size {k : Nat} (h : k < 272) : (Int32.ofNat k).toInt = k :=
  Int32.toInt_ofNat_of_lt (by omega)

theorem toInt_sub_size {x : Int32} {k : Nat} (hx : 0 ≤ x.toInt) (hk : k < 272) :
    (x - Int32.ofNat k).toInt = x.toInt - k := by
  have hhigh := x.toInt_lt
  rw [Int32.toInt_sub, toInt_size hk]
  exact Int.bmod_eq_of_le_mul_two (by omega) (by omega)

theorem take_putAt (ifr : Buf) {l : List UInt8} (hl : l.length = 16) :
    (ifr.putAt 16 l).take 32 = ifr.take 16 ++ l := by
  rw [← Buf.slice_zero_eq_take, ← Buf.slice_zero_eq_take, show 32 = 16 + 16 from rfl,
    Buf.slice_add, Buf.slice_putAt_apart l (.inl (Nat.zero_add 16).le), Nat.zero_add]
  congr 1
  have hsame := Buf.slice_putAt_same (b := ifr) (k := 16) l
  rwa [hl] at hsame

/-- The entry is copied out, or it is a longer one and does not fit what is left of the room. -/
theorem ifconfPair_more {s : Ifconf} (hmore : s.more) (p : Ifnet × Option Sockaddr) :
    ((ifconfPair s p).space = s.space - Int32.ofNat (entrySize p.2) ∧
      (ifconfPair s p).ifrp = s.ifrp + entrySize p.2 ∧
      (ifconfPair s p).out = s.out ++ entry s.ifrp ((ifrName p.1 s.ifr).take 16) p.2) ∧
        (entrySize p.2 = 32 ∨
          ¬ (s.space - Int32.ofNat (entrySize p.2 - 32)).toUInt32 < 32) ∨
    ((ifconfPair s p).space = s.space - Int32.ofNat (entrySize p.2 - 32) ∧
      (ifconfPair s p).out = s.out) ∧
        32 < entrySize p.2 ∧ (s.space - Int32.ofNat (entrySize p.2 - 32)).toUInt32 < 32 := by
  obtain ⟨ifp, o⟩ := p
  rw [ifconfPair, if_pos hmore]
  cases o with
  | none =>
      refine .inl ⟨⟨rfl, rfl, ?_⟩, .inl rfl⟩
      simp only [ifconfCopy, entry]
      rw [take_putAt _ (by simp)]
  | some sa =>
      by_cases hlen : sa.len ≤ 16
      · have hsize : entrySize (some sa) = 32 := by rw [entrySize, if_pos hlen]
        dsimp only
        rw [ifconfAddr, if_pos hlen, hsize, entry, if_pos hlen,
          ← take_putAt _ (length_mem_take sa 16)]
        exact .inl ⟨⟨rfl, rfl, rfl⟩, .inl rfl⟩
      · have hlong : 16 < sa.len.toNat := UInt8.lt_iff_toNat_lt.mp (UInt8.not_le.mp hlen)
        have hsize : entrySize (some sa) = 16 + sa.len.toNat := by rw [entrySize, if_neg hlen]
        have hless : Int32.ofNat sa.len.toNat - 16 =
            Int32.ofNat (entrySize (some sa) - 32) := by
          rw [hsize, show 16 + sa.len.toNat - 32 = sa.len.toNat - 16 by omega,
            Int32.ofNat_sub _ _ hlong.le]
          rfl
        have hall : s.space - Int32.ofNat (entrySize (some sa) - 32) - 32 =
            s.space - Int32.ofNat (entrySize (some sa)) := by
          have hadd := Int32.ofNat_add (entrySize (some sa) - 32) 32
          rw [Nat.sub_add_cancel (entrySize_ge _)] at hadd
          rw [hadd, Int32.sub_sub]
          rfl
        simp only [ifconfAddr, if_neg hlen, hless]
        by_cases hroom : (s.space - Int32.ofNat (entrySize (some sa) - 32)).toUInt32 < 32
        · rw [if_pos hroom]
          exact .inr ⟨⟨rfl, rfl⟩, by omega, hroom⟩
        · rw [if_neg hroom]
          refine .inl ⟨⟨hall, ?_, ?_⟩, .inr hroom⟩
          · rw [hsize, Nat.add_assoc]
          · rw [entry, if_neg hlen]

theorem foldl_ifconfPair_out (ps : List (Ifnet × Option Sockaddr)) (s : Ifconf) :
    ∃ out, (ps.foldl ifconfPair s).out = s.out ++ out := by
  induction ps generalizing s with
  | nil => exact ⟨[], (List.append_nil _).symm⟩
  | cons p ps ih =>
      obtain ⟨out, hout⟩ := ih (ifconfPair s p)
      rw [List.foldl_cons, hout]
      by_cases hmore : s.more
      · rcases ifconfPair_more hmore p with ⟨⟨-, -, hpair⟩, -⟩ | ⟨⟨-, hpair⟩, -⟩
        · exact ⟨_, by rw [hpair, List.append_assoc]⟩
        · exact ⟨out, by rw [hpair]⟩
      · exact ⟨out, by rw [ifconfPair, if_neg hmore]⟩

/-- From a room of `n` octets on: either something is written behind them, or what is left and what
is written are right just when the entries fit. -/
theorem foldl_ifconfPair_outcome {ifunit : List UInt8 → Option Nat}
    {ps : List (Ifnet × Option Sockaddr)}
    (hps : ∀ p ∈ ps, 0 ∉ p.1.name ∧ FindsUnit ifunit p.1) {s : Ifconf} {n : Nat}
    (hspace : s.space.toInt = n) :
    ∃ out, (ps.foldl ifconfPair s).out = s.out ++ out ∧
      ((∃ c ∈ out, s.ifrp + n < c.dst + c.octets.length) ∧ ¬ EntriesFit n ps ∨
        ∃ left : Nat, (ps.foldl ifconfPair s).space.toInt = left ∧ left ≤ n ∧
          (∀ c ∈ out, c.dst + c.octets.length ≤ s.ifrp + n) ∧
          ((n - left = copied out ∧ ∃ qs, qs <+: ps ∧ Entries ifunit s.ifrp qs out) ↔
            EntriesFit n ps)) := by
  induction ps generalizing s n with
  | nil =>
      refine ⟨[], (List.append_nil _).symm, .inr ⟨n, hspace, Nat.le_refl _, ?_, ?_⟩⟩
      · intro c hc
        exact absurd hc List.not_mem_nil
      · refine iff_of_true ⟨Nat.sub_self n, [], List.prefix_refl _, .nil _⟩ ?_
        intro qs p hqs
        exact absurd (List.prefix_nil.mp hqs) (by simp)
  | cons p ps ih =>
      obtain ⟨⟨hname, hunit⟩, hps⟩ := List.forall_mem_cons.mp hps
      by_cases hn : 32 < n
      · have hmore := (more_iff hspace).mpr hn
        have hge := entrySize_ge p.2
        have hlt := entrySize_lt p.2
        have hless := toInt_sub_size (x := s.space) (k := entrySize p.2 - 32) (by omega) (by omega)
        have hval := toNat_toUInt32 (s.space - Int32.ofNat (entrySize p.2 - 32))
        have hhigh := s.space.toInt_lt
        have hconst : (32 : UInt32).toNat = 32 := rfl
        rw [List.foldl_cons]
        rcases ifconfPair_more hmore p with
          ⟨⟨hleft, hifrp, hout⟩, hroom⟩ | ⟨⟨hleft, hout⟩, hlong, hroom⟩
        · rw [UInt32.lt_iff_toNat_lt] at hroom
          have hfield : ((ifrName p.1 s.ifr).take 16).length = 16 := Buf.length_take _ _
          by_cases hfits : entrySize p.2 ≤ n
          · have hspace' : (ifconfPair s p).space.toInt = (n - entrySize p.2 : Nat) := by
              rw [hleft, toInt_sub_size (by omega) hlt]
              omega
            obtain ⟨out, hrest, hcases⟩ := ih hps hspace'
            refine ⟨_, by rw [hrest, hout, List.append_assoc], ?_⟩
            rw [hifrp] at hcases
            rw [entriesFit_cons hn]
            rcases hcases with ⟨⟨c, hc, hbehind⟩, hfit⟩ | ⟨left, hleft', hle, hwithin, hiff⟩
            · refine .inl ⟨⟨c, List.mem_append_right _ hc, by omega⟩, fun hcon => hfit hcon.2.2⟩
            · refine .inr ⟨left, hleft', by omega, fun c hc => ?_, ?_⟩
              · rcases List.mem_append.mp hc with hc | hc
                · have hend := entry_within s.ifrp hfield p.2 c hc
                  omega
                · have hend := hwithin c hc
                  omega
              · rw [entries_cons_iff hfield, ifunit_ifrName hname hunit, copied_append,
                  copied_entry _ hfield, ← hiff]
                constructor
                · rintro ⟨hcopied, hshort, hentries⟩
                  exact ⟨hfits, hshort, by omega, hentries⟩
                · rintro ⟨-, hshort, hcopied, hentries⟩
                  exact ⟨by omega, hshort, hentries⟩
          · -- the address is longer than what is left, and the room is now below zero
            obtain ⟨c, hc, hend⟩ := entry_end s.ifrp ((ifrName p.1 s.ifr).take 16)
              (o := p.2) (by omega)
            obtain ⟨out, hrest⟩ := foldl_ifconfPair_out ps (ifconfPair s p)
            refine ⟨_, by rw [hrest, hout, List.append_assoc], .inl ⟨⟨c, ?_, by omega⟩, ?_⟩⟩
            · exact List.mem_append_left _ hc
            · exact fun hcon => hfits ((entriesFit_cons hn).mp hcon).1
        · rw [UInt32.lt_iff_toNat_lt] at hroom
          have hleft' : (ifconfPair s p).space.toInt = (n - (entrySize p.2 - 32) : Nat) := by
            rw [hleft, hless]
            omega
          have hstop : ¬ (ifconfPair s p).more := by
            rw [more_iff hleft']
            omega
          rw [foldl_ifconfPair_stop hstop]
          refine ⟨[], by rw [hout, List.append_nil], .inr ⟨_, hleft', by omega, fun c hc => ?_, ?_⟩⟩
          · exact absurd hc List.not_mem_nil
          · refine iff_of_false ?_ ?_
            · intro hcon
              have hnone : n - (n - (entrySize p.2 - 32)) = 0 := hcon.1
              omega
            · intro hcon
              have hfits := ((entriesFit_cons hn).mp hcon).1
              omega
      · have hstop : ¬ s.more := by
          rw [more_iff hspace]
          exact hn
        rw [foldl_ifconfPair_stop hstop]
        refine ⟨[], (List.append_nil _).symm, .inr ⟨n, hspace, Nat.le_refl _, ?_, ?_⟩⟩
        · intro c hc
          exact absurd hc List.not_mem_nil
        · refine iff_of_true ⟨Nat.sub_self n, [], List.nil_prefix, .nil _⟩ ?_
          exact entriesFit_of_le (by omega) _

/-- Less than no room is taken for room enough. -/
theorem ifconfPair_negative {s : Ifconf} (hneg : s.space.toInt < 0) (p : Ifnet × Option Sockaddr) :
    (ifconfPair s p).out = s.out ++ entry s.ifrp ((ifrName p.1 s.ifr).take 16) p.2 := by
  have hlow := s.space.le_toInt
  have hconst : (32 : UInt32).toNat = 32 := rfl
  have hval := toNat_toUInt32 s.space
  have hmore : s.more := by
    rw [Ifconf.more, UInt32.lt_iff_toNat_lt]
    omega
  rcases ifconfPair_more hmore p with ⟨⟨-, -, hout⟩, -⟩ | ⟨-, -, hroom⟩
  · exact hout
  · have hlt := entrySize_lt p.2
    have hless := toNat_toUInt32 (s.space - Int32.ofNat (entrySize p.2 - 32))
    rw [Int32.toInt_sub, toInt_size (by omega)] at hless
    have hemod := Int.bmod_emod (x := s.space.toInt - (entrySize p.2 - 32 : Nat)) (m := 2 ^ 32)
    rw [UInt32.lt_iff_toNat_lt] at hroom
    omega

theorem entry_ne_nil (a : Nat) (name : List UInt8) (o : Option Sockaddr) : entry a name o ≠ [] := by
  cases o with
  | none => exact List.cons_ne_nil _ _
  | some sa =>
      rw [entry]
      split
      · exact List.cons_ne_nil _ _
      · exact List.cons_ne_nil _ _

theorem fst_mem_of_mem_pairs {ifnet : List Ifnet} {p : Ifnet × Option Sockaddr}
    (hp : p ∈ ifconfPairs ifnet) : p.1 ∈ ifnet := by
  obtain ⟨ifp, hifp, hp⟩ := List.mem_flatMap.mp hp
  split at hp
  · obtain rfl := List.mem_singleton.mp hp
    exact hifp
  · obtain ⟨ifa, -, rfl⟩ := List.mem_map.mp hp
    exact hifp

/-- What `ifconf` writes is within the buffer and is what it says, and the entries are those of the
first addresses with names that lead back to the interfaces, just when as long as more than 32
octets are left the next entry fits what is left and its interface has a short name and a unit of
one digit; and a length below zero is for no address at all. -/
theorem ifconf_lists_iff {ifunit : List UInt8 → Option Nat} {ifnet : List Ifnet}
    (hname : ∀ ifp ∈ ifnet, 0 ∉ ifp.name) (hunit : ∀ ifp ∈ ifnet, FindsUnit ifunit ifp)
    (ifr : Buf) (ifcLen : Int32) :
    Lists ifunit ifnet ifcLen (ifconf ifnet ifr ifcLen) ↔
      (ifcLen < 0 → ifconfPairs ifnet = []) ∧
        EntriesFit ifcLen.toInt.toNat (ifconfPairs ifnet) := by
  have hps : ∀ p ∈ ifconfPairs ifnet, 0 ∉ p.1.name ∧ FindsUnit ifunit p.1 := by
    intro p hp
    have hmem := fst_mem_of_mem_pairs hp
    exact ⟨hname _ hmem, hunit _ hmem⟩
  have hconf : ifconf ifnet ifr ifcLen =
      (ifcLen - ((ifconfPairs ifnet).foldl ifconfPair ⟨ifcLen, 0, ifr, []⟩).space,
        ((ifconfPairs ifnet).foldl ifconfPair ⟨ifcLen, 0, ifr, []⟩).out) := by
    rw [ifconf]
    rw [ifconfIfs_pairs hname]
  rw [hconf]
  have hhigh := ifcLen.toInt_lt
  have hzero : (0 : Int32).toInt = 0 := rfl
  by_cases hneg : ifcLen < 0
  · rw [Int32.lt_iff_toInt_lt, hzero] at hneg
    cases hpairs : ifconfPairs ifnet with
    | nil =>
        refine iff_of_true ⟨fun c hc => absurd hc List.not_mem_nil, ?_, [], ?_, .nil 0⟩ ⟨?_, ?_⟩
        · rw [List.foldl_nil, Int32.sub_self]
          rfl
        · exact List.nil_prefix
        · exact fun _ => rfl
        · exact entriesFit_of_le (by omega) _
    | cons p ps =>
        refine iff_of_false ?_ ?_
        · intro hcon
          have hout := ifconfPair_negative (s := ⟨ifcLen, 0, ifr, []⟩) hneg p
          obtain ⟨out, hrest⟩ := foldl_ifconfPair_out ps (ifconfPair ⟨ifcLen, 0, ifr, []⟩ p)
          obtain ⟨c, hc⟩ := List.exists_mem_of_ne_nil _
            (entry_ne_nil 0 ((ifrName p.1 ifr).take 16) p.2)
          have hwithin := hcon.within c (by
            rw [List.foldl_cons, hrest, hout]
            exact List.mem_append_left _ (List.mem_append_right _ hc))
          omega
        · intro hcon
          have hnil := hcon.1 (by rw [Int32.lt_iff_toInt_lt, hzero]; exact hneg)
          cases hnil
  · rw [Int32.lt_iff_toInt_lt, hzero] at hneg
    obtain ⟨out, hout, hcases⟩ := foldl_ifconfPair_outcome hps (s := ⟨ifcLen, 0, ifr, []⟩)
      (n := ifcLen.toInt.toNat) (by dsimp only; omega)
    rw [List.nil_append] at hout
    simp only [Nat.zero_add] at hcases
    rcases hcases with ⟨⟨c, hc, hbehind⟩, hfit⟩ | ⟨left, hleft, hle, hwithin, hiff⟩
    · refine iff_of_false ?_ fun hcon => hfit hcon.2
      intro hcon
      have hin := hcon.within c (by rw [hout]; exact hc)
      omega
    · have hlen : (ifcLen - ((ifconfPairs ifnet).foldl ifconfPair ⟨ifcLen, 0, ifr, []⟩).space).toInt =
          (ifcLen.toInt.toNat - left : Nat) := by
        rw [Int32.toInt_sub, hleft, Int.bmod_eq_of_le_mul_two (by omega) (by omega)]
        omega
      rw [← hiff]
      constructor
      · rintro ⟨-, hlength, hentries⟩
        dsimp only at hlength hentries
        rw [hlen, hout] at hlength
        rw [hout] at hentries
        exact ⟨fun hcon => absurd hcon (by rw [Int32.lt_iff_toInt_lt, hzero]; exact hneg),
          by omega, hentries⟩
      · rintro ⟨-, hcopied, hentries⟩
        refine ⟨?_, ?_, ?_⟩
        · intro c hc
          rw [hout] at hc
          have hin := hwithin c hc
          omega
        · dsimp only
          rw [hlen, hout, hcopied]
        · dsimp only
          rw [hout]
          exact hentries

/-- The loopback interface with its link-level address, which is of 20 octets. -/
def lo0Linked : Ifnet := { lo0 with addrlist := [linkAddr lo0] }

/-- Nothing but the name with the unit behind it. -/
def ifunitOnly (ifp : Ifnet) (name : List UInt8) : Option Nat :=
  if name = ifp.unitname then some ifp.ifp else none

theorem findsUnit_only (ifp : Ifnet) : FindsUnit (ifunitOnly ifp) ifp := by
  intro c name _
  rw [ifunitOnly]
  split
  · next heq => exact iff_of_true rfl heq
  · next hne => exact iff_of_false (by simp) hne

/-- In 64 octets there is room for it. -/
theorem ifconf_lists_lo0 :
    Lists (ifunitOnly lo0Linked) [lo0Linked] 64 (ifconf [lo0Linked] (fun _ => 0) 64) := by
  refine (ifconf_lists_iff ?_ ?_ _ _).mpr ⟨fun h => absurd h (by decide), ?_⟩
  · intro ifp hifp
    obtain rfl := List.mem_singleton.mp hifp
    decide
  · intro ifp hifp
    obtain rfl := List.mem_singleton.mp hifp
    exact findsUnit_only _
  · refine (entriesFit_cons (by decide)).mpr ⟨by decide, ⟨by decide, by decide⟩, ?_⟩
    exact entriesFit_of_le (by decide) _

/-- In 33 octets there is not, and 4 octets are reported of which none is written; and in a buffer
of less than none something is. -/
theorem ifconf_overstates :
    ¬ Lists (ifunitOnly lo0Linked) [lo0Linked] 33 (ifconf [lo0Linked] (fun _ => 0) 33) ∧
      ¬ Lists (ifunitOnly lo0Linked) [lo0Linked] (-1) (ifconf [lo0Linked] (fun _ => 0) (-1)) := by
  constructor
  · intro hcon
    exact absurd hcon.length (by decide +kernel)
  · intro hcon
    have hwritten : ⟨16, (linkAddr lo0).addr.mem.take 20⟩ ∈
        (ifconf [lo0Linked] (fun _ => 0) (-1)).2 := by
      decide +kernel
    exact absurd (hcon.within _ hwritten) (by decide +kernel)

end VxWorks.Netinet
