import Mathlib.Data.List.Nodup
import VxWorks.Lib.Buffer
import VxWorks.Lib.Maximal
import VxWorks.Lib.Run

/-!
# The list of interfaces (if.c)

Interfaces come and go, and each has a list of addresses; the first is the
link-level address that `if_attach` makes for it, with its name and its index,
the others are those that the protocols give it. Indices are handed out from a
counter, and nothing takes one back.

An address is looked for by the netmasks of the addresses here, and of those that
match the most specific is taken. A link-level address with an index is not: the
interface with the index is looked up, and its link-level address is the answer.
The test before it is whether the counter has come as far as the index.

Two-octet fields are in the order of the big-endian targets. `rn_refines`, which
compares netmasks, is not part of the sources, and is a parameter. A structure
that is handed to `if_attach` is one that is not in the list, and its `if_next`
is null. When `MALLOC` fails in `if_attach` the interface has no link-level
address.
-/

namespace VxWorks.Netinet

open VxWorks.Lib

/-! ## Interfaces and addresses -/

/-- `struct sockaddr`: `sa_len`, `sa_family`, and the octets from `sa_data` on. -/
structure Sockaddr where
  len : UInt8
  family : UInt8
  data : Buf

/-- `AF_LINK` -/
def afLink : UInt8 := 18

/-- `sdl_index` -/
def Sockaddr.index (sdl : Sockaddr) : UInt16 := sdl.data.u16 0

structure Ifaddr where
  addr : Sockaddr
  netmask : Option Sockaddr

/-- `struct ifnet`; `ifp` is the structure's address. -/
structure Ifnet where
  ifp : Nat
  name : List UInt8
  unit : Int16
  type : UInt8
  addrlen : Nat
  index : UInt16
  addrlist : List Ifaddr

/-- `ifnet`, and the counter `if_index`. -/
structure IfList where
  ifnet : List Ifnet
  ifIndex : Nat

/-- `sprint_d` -/
def sprintD (n : Nat) : List UInt8 := (Nat.toDigits 10 n).map fun c => UInt8.ofNat c.toNat

/-- `ROUNDUP`, for long words of four octets. -/
def roundup (a : Nat) : Nat := (a + 3) / 4 * 4

/-- `masklen` without the name, and `sizeof (struct sockaddr_dl)`. -/
def sdlData : Nat := 8

def sdlSize : Nat := 20

/-- The name with the unit behind it; `if_unit` is a `short` and is converted to `u_int`. -/
def Ifnet.unitname (ifp : Ifnet) : List UInt8 :=
  ifp.name ++ sprintD ifp.unit.toInt32.toUInt32.toNat

/-- The link-level address that `if_attach` makes. -/
def linkAddr (ifp : Ifnet) : Ifaddr :=
  let name := ifp.unitname
  let masklen := sdlData + name.length
  let socksize := max (roundup (masklen + ifp.addrlen)) sdlSize
  { addr :=
      { len := UInt8.ofNat socksize
        family := afLink
        data := Buf.of (put16 ifp.index ++ [ifp.type, UInt8.ofNat name.length, 0, 0] ++ name) }
    netmask := some
      { len := UInt8.ofNat masklen
        family := 0
        data := Buf.of (List.replicate 6 0 ++ List.replicate name.length 0xff) } }

/-- `if_attach`; `mem` is whether `MALLOC` succeeds. -/
def ifAttach (ifp : Ifnet) (mem : Bool) (s : IfList) : IfList :=
  let ifIndex := s.ifIndex + 1
  let ifp := { ifp with index := UInt16.ofNat ifIndex }
  let ifp := if mem then { ifp with addrlist := linkAddr ifp :: ifp.addrlist } else ifp
  { ifnet := s.ifnet ++ [ifp], ifIndex }

/-- `if_dettach` -/
def ifDettach (ifp : Nat) (s : IfList) : IfList :=
  { s with ifnet := s.ifnet.eraseP fun i => i.ifp == ifp }

/-- `ifIndexToIfp` -/
def ifIndexToIfp (s : IfList) (index : UInt16) : Option Ifnet :=
  s.ifnet.find? fun ifp => ifp.index == index

/-- The loop over the octets of a netmask, up to its end: the family and the address match. -/
def netMatches (addr : Sockaddr) (ifa : Ifaddr) : Bool :=
  match ifa.netmask with
  | none => false
  | some netmask =>
      ifa.addr.family == addr.family &&
        (List.range (netmask.len.toNat - 2)).all fun k =>
          (addr.data k ^^^ ifa.addr.data k) &&& netmask.data k == 0

/-- `rn_refines` of the netmasks. -/
def refinesNet (rnRefines : Sockaddr → Sockaddr → Bool) (ifa maybe : Ifaddr) : Bool :=
  ifa.netmask.any fun m => maybe.netmask.any fun n => rnRefines m n

/-- A link-level address with an index that the counter has come to. -/
def IfList.Indexed (s : IfList) (addr : Sockaddr) : Prop :=
  addr.family = afLink ∧ addr.index ≠ 0 ∧ addr.index.toNat ≤ s.ifIndex

instance (s : IfList) (addr : Sockaddr) : Decidable (s.Indexed addr) :=
  inferInstanceAs (Decidable (_ ∧ _ ∧ _))

/-- `ifa_ifwithnet`; there is no answer where it reads through a null pointer. -/
def ifaIfwithnet (rnRefines : Sockaddr → Sockaddr → Bool) (s : IfList) (addr : Sockaddr) :
    Option (Option Ifaddr) :=
  if s.Indexed addr then
    (ifIndexToIfp s addr.index).map fun ifp =>
      ifp.addrlist.find? fun ifa => ifa.addr.family == afLink
  else
    some (s.ifnet.foldl (fun maybe ifp =>
      ifp.addrlist.foldl (pickStep (netMatches addr) (refinesNet rnRefines)) maybe) none)

/-! ## Runs -/

/-- An interface comes or goes, or the protocols give it other addresses behind its link-level
address. -/
inductive IfOp where
  | attach (ifp : Ifnet) (mem : Bool)
  | dettach (ifp : Nat)
  | addrs (ifp : Nat) (l : List Ifaddr)

def Ifnet.setAddrs (i : Ifnet) (l : List Ifaddr) : Ifnet :=
  { i with addrlist := i.addrlist.filter (fun ifa => ifa.addr.family == afLink) ++ l }

def ifStep (s : IfList) : IfOp → IfList
  | .attach ifp mem => ifAttach ifp mem s
  | .dettach ifp => ifDettach ifp s
  | .addrs ifp l => { s with ifnet := s.ifnet.map fun i => if i.ifp = ifp then i.setAddrs l else i }

def IfList.start : IfList := ⟨[], 0⟩

/-- An interface that is attached is not in the list, and its index fits `if_index`. -/
def NewIfnet (s : IfList) : IfOp → Prop
  | .attach ifp _ => s.ifIndex < 65535 ∧ ∀ i ∈ s.ifnet, i.ifp ≠ ifp.ifp
  | _ => True

/-- The index that an attachment gives out was no interface's before. -/
def IndexesOnce (ops : List IfOp) : Prop :=
  ∀ pre ifp mem, pre ++ [.attach ifp mem] <+: ops → ∀ pre', pre' <+: pre →
    ∀ i ∈ (run ifStep .start pre').ifnet,
      i.index ≠ UInt16.ofNat ((run ifStep .start pre).ifIndex + 1)

/-- All addresses, in their order. -/
def IfList.addresses (s : IfList) : List Ifaddr := s.ifnet.flatMap Ifnet.addrlist

/-- What `ifa_ifwithnet` is to find: by index the link-level address of the interface with the
index, else an address that matches, and no other that matches has a netmask that refines its. -/
structure FindsNet (rnRefines : Sockaddr → Sockaddr → Bool) (s : IfList) (addr : Sockaddr)
    (r : Option Ifaddr) : Prop where
  link : s.Indexed addr → ∃ ifp ∈ s.ifnet, ifp.index = addr.index ∧
    (∀ i ∈ s.ifnet, i.index = addr.index → i = ifp) ∧
    r = ifp.addrlist.find? fun ifa => ifa.addr.family == afLink
  net : ¬ s.Indexed addr →
    Picked (netMatches addr) (refinesNet rnRefines) s.addresses r

/-- Every index in the list is one that was given out, and given out once. -/
structure IfList.Inv (s : IfList) : Prop where
  bound : s.ifIndex ≤ 65535
  given : ∀ i ∈ s.ifnet, i.index.toNat ≤ s.ifIndex
  once : s.ifnet.Pairwise fun i j => i.index ≠ j.index

theorem toNat_ofNat_index {n : Nat} (h : n ≤ 65535) : (UInt16.ofNat n).toNat = n := by
  rw [UInt16.toNat_ofNat']
  omega

theorem index_attached (ifp : Ifnet) (mem : Bool) (n : Nat) :
    (if mem then { ({ ifp with index := UInt16.ofNat n } : Ifnet) with
        addrlist := linkAddr { ifp with index := UInt16.ofNat n } :: ifp.addrlist }
      else { ifp with index := UInt16.ofNat n }).index = UInt16.ofNat n := by
  split
  · rfl
  · rfl

theorem ifStep_inv {s : IfList} (h : s.Inv) {op : IfOp} (hnew : NewIfnet s op) :
    (ifStep s op).Inv := by
  cases op with
  | attach ifp mem =>
      obtain ⟨hroom, -⟩ := hnew
      have hindex := index_attached ifp mem (s.ifIndex + 1)
      have hval := toNat_ofNat_index (n := s.ifIndex + 1) (by omega)
      refine ⟨hroom, ?_, ?_⟩
      · intro i hi
        rcases List.mem_append.mp hi with hi | hi
        · exact Nat.le_succ_of_le (h.given i hi)
        · rw [List.mem_singleton.mp hi]
          dsimp only
          rw [hindex, hval]
          exact Nat.le_refl _
      · refine List.pairwise_append.mpr ⟨h.once, List.pairwise_singleton .., ?_⟩
        intro i hi j hj hcon
        rw [List.mem_singleton.mp hj] at hcon
        dsimp only at hcon
        rw [hindex] at hcon
        have hle := h.given i hi
        rw [hcon, hval] at hle
        omega
  | dettach ifp =>
      have hsub : (s.ifnet.eraseP fun i => i.ifp == ifp).Sublist s.ifnet := List.eraseP_sublist
      exact ⟨h.bound, fun i hi => h.given i (hsub.mem hi), h.once.sublist hsub⟩
  | addrs ifp l =>
      have hindex : ∀ i : Ifnet, (if i.ifp = ifp then i.setAddrs l else i).index = i.index := by
        intro i
        split
        · rfl
        · rfl
      refine ⟨h.bound, ?_, ?_⟩
      · intro i hi
        obtain ⟨j, hj, rfl⟩ := List.mem_map.mp hi
        rw [hindex]
        exact h.given j hj
      · refine List.pairwise_map.mpr (h.once.imp fun {i j} hij => ?_)
        rw [hindex, hindex]
        exact hij

theorem ifIndex_mono {ops pre : List IfOp} (h : pre <+: ops) :
    (run ifStep .start pre).ifIndex ≤ (run ifStep .start ops).ifIndex := by
  obtain ⟨rest, rfl⟩ := h
  induction rest using List.reverseRecOn with
  | nil => rw [List.append_nil]
  | append_singleton rest op ih =>
      rw [← List.append_assoc, run_concat]
      refine Nat.le_trans ih ?_
      cases op with
      | attach ifp mem => exact Nat.le_succ _
      | dettach ifp => exact Nat.le_refl _
      | addrs ifp l => exact Nat.le_refl _

theorem IfList.start_inv : IfList.start.Inv :=
  ⟨Nat.zero_le _, fun _ hi => absurd hi List.not_mem_nil, List.Pairwise.nil⟩

theorem run_inv {ops : List IfOp} (h : Guarded ifStep NewIfnet .start ops) :
    Always ifStep IfList.Inv .start ops :=
  always_of_guarded IfList.Inv IfList.start_inv (fun _ _ hs hop => ifStep_inv hs hop) h

theorem indexesOnce_of_guarded {ops : List IfOp} (h : Guarded ifStep NewIfnet .start ops) :
    IndexesOnce ops := by
  intro pre ifp mem hpre pre' hpre' i hi hcon
  have hroom := (h pre (.attach ifp mem) hpre).1
  have hin := hpre'.trans ((List.prefix_append pre _).trans hpre)
  have hle := (run_inv h pre' hin).given i hi
  rw [hcon, toNat_ofNat_index (by omega)] at hle
  have hmono := ifIndex_mono hpre'
  omega

/-- The two loops are one over all addresses. -/
theorem ifaIfwithnet_net {rnRefines : Sockaddr → Sockaddr → Bool} {s : IfList} {addr : Sockaddr}
    (h : ¬ s.Indexed addr) : ifaIfwithnet rnRefines s addr =
      some (pick (netMatches addr) (refinesNet rnRefines) s.addresses) := by
  rw [ifaIfwithnet, if_neg h, pick, IfList.addresses, List.foldl_flatMap]

/-- The netmasks are refined in a strict order, and so are the addresses by their netmasks. -/
theorem refinesNet_irrefl {rnRefines : Sockaddr → Sockaddr → Bool}
    (hirr : ∀ m, rnRefines m m = false) (a : Ifaddr) : refinesNet rnRefines a a = false := by
  rw [refinesNet]
  cases a.netmask with
  | none => rfl
  | some m => exact hirr m

theorem refinesNet_trans {rnRefines : Sockaddr → Sockaddr → Bool}
    (htrans : ∀ k m n, rnRefines k m = true → rnRefines m n = true → rnRefines k n = true)
    (a b c : Ifaddr) (hab : refinesNet rnRefines a b = true) (hbc : refinesNet rnRefines b c = true) :
    refinesNet rnRefines a c = true := by
  rw [refinesNet, Option.any_eq_true] at hab hbc ⊢
  obtain ⟨k, hk, hab⟩ := hab
  obtain ⟨m, hm, hab⟩ := (Option.any_eq_true _ _).mp hab
  obtain ⟨m', hm', hbc⟩ := hbc
  obtain ⟨n, hn, hbc⟩ := (Option.any_eq_true _ _).mp hbc
  obtain rfl : m = m' := Option.some.inj (hm.symm.trans hm')
  exact ⟨k, hk, (Option.any_eq_true _ _).mpr ⟨n, hn, htrans k m n hab hbc⟩⟩

/-- After any run in which interfaces come and go no index has been given out twice. A link-level
address whose index an attached interface has leads to that interface's link-level address; one
without an index or with an index that was never given out is looked for like any other address, and
what is found matches, and nothing that matches has a more specific netmask. -/
theorem ifa_ifwithnet_finds {rnRefines : Sockaddr → Sockaddr → Bool}
    (hirr : ∀ m, rnRefines m m = false)
    (htrans : ∀ k m n, rnRefines k m = true → rnRefines m n = true → rnRefines k n = true)
    {ops : List IfOp} (h : Guarded ifStep NewIfnet .start ops) :
    IndexesOnce ops ∧ ∀ addr,
      ((run ifStep .start ops).Indexed addr →
        ∃ ifp ∈ (run ifStep .start ops).ifnet, ifp.index = addr.index) →
      ∃ r, ifaIfwithnet rnRefines (run ifStep .start ops) addr = some r ∧
        FindsNet rnRefines (run ifStep .start ops) addr r := by
  refine ⟨indexesOnce_of_guarded h, ?_⟩
  intro addr hattached
  have hinv := run_inv h ops (List.prefix_refl _)
  generalize run ifStep .start ops = s at hattached hinv
  by_cases hindexed : s.Indexed addr
  · obtain ⟨ifp, hifp, hindex⟩ := hattached hindexed
    have honce : ∀ i ∈ s.ifnet, i.index = addr.index → i = ifp := by
      intro i hi heq
      have hnodup : (s.ifnet.map Ifnet.index).Nodup := List.pairwise_map.mpr hinv.once
      exact List.inj_on_of_nodup_map hnodup hi hifp (heq.trans hindex.symm)
    have hfind : ifIndexToIfp s addr.index = some ifp := by
      cases hfound : ifIndexToIfp s addr.index with
      | none => exact absurd hindex (by simpa using List.find?_eq_none.mp hfound ifp hifp)
      | some i =>
          rw [honce i (List.mem_of_find?_eq_some hfound) (by simpa using List.find?_some hfound)]
    refine ⟨_, by rw [ifaIfwithnet, if_pos hindexed, hfind, Option.map_some], ?_, ?_⟩
    · exact fun _ => ⟨ifp, hifp, hindex, honce, rfl⟩
    · exact fun hcon => absurd hindexed hcon
  · refine ⟨_, ifaIfwithnet_net hindexed, fun hcon => absurd hcon hindexed, ?_⟩
    intro _
    exact pick_picked (refinesNet_irrefl hirr) (refinesNet_trans htrans) s.addresses

/-- A netmask of at most `n` octets that has all the bits of the other and more. -/
def moreBits (n : Nat) (m m' : Sockaddr) : Bool :=
  ((List.range n).all fun k => m'.data k &&& m.data k == m'.data k) &&
    (List.range n).any fun k => m.data k != m'.data k

/-- The loopback interface, and two Ethernet interfaces. -/
def lo0 : Ifnet := ⟨0, [108, 111], 0, 24, 0, 0, []⟩

def ei0 : Ifnet := ⟨1, [101, 105], 0, 6, 6, 0, []⟩

/-- A link-level address with this index and this name. -/
def linkName (index : UInt16) (name : List UInt8) : Sockaddr :=
  ⟨20, afLink, Buf.of (put16 index ++ [0, 0, 0, 0] ++ name)⟩

theorem moreBits_irrefl (n : Nat) (m : Sockaddr) : moreBits n m m = false := by
  simp [moreBits]

theorem moreBits_trans (n : Nat) (k m m' : Sockaddr) (h : moreBits n k m = true)
    (h' : moreBits n m m' = true) : moreBits n k m' = true := by
  simp only [moreBits, Bool.and_eq_true, List.all_eq_true, List.any_eq_true, List.mem_range,
    beq_iff_eq, bne_iff_ne] at h h' ⊢
  obtain ⟨hall, j, hj, hne⟩ := h
  obtain ⟨hall', -⟩ := h'
  refine ⟨?_, j, hj, fun hcon => hne ?_⟩
  · intro i hi
    rw [← hall' i hi, UInt8.and_assoc, hall i hi]
  · have hback := hall' j hj
    rw [← hcon] at hback
    rw [← hall j hj, UInt8.and_comm, hback]

/-- The loopback interface has gone and come again, with another index, and the Ethernet interface
is found by its own. -/
theorem ifa_ifwithnet_finds_again :
    ∃ r, ifaIfwithnet (moreBits 32) (run ifStep .start
          [.attach lo0 true, .attach ei0 true, .dettach 0, .attach lo0 true]) (linkName 2 []) =
        some r ∧
      FindsNet (moreBits 32) (run ifStep .start
        [.attach lo0 true, .attach ei0 true, .dettach 0, .attach lo0 true]) (linkName 2 []) r := by
  refine (ifa_ifwithnet_finds (moreBits_irrefl 32) (moreBits_trans 32) (guarded_cons ?_
    (guarded_cons ?_ (guarded_cons ?_ (guarded_cons ?_ guarded_nil))))).2 _
    fun _ => ⟨_, .head _, ?_⟩
  · exact ⟨by decide, fun i hi => absurd hi List.not_mem_nil⟩
  · refine ⟨by decide, ?_⟩
    intro i hi
    rw [List.mem_singleton.mp hi]
    decide
  · exact trivial
  · refine ⟨by decide, ?_⟩
    intro i hi
    rw [List.mem_singleton.mp hi]
    decide
  · decide

/-- The index of an interface that is gone leads through a null pointer; and a link-level address
without an index is found by its name, under an index that is not its own. -/
theorem ifa_ifwithnet_gone :
    ifaIfwithnet (moreBits 32) (run ifStep .start [.attach lo0 true, .dettach 0])
        (linkName 1 []) = none ∧
      (ifaIfwithnet (moreBits 32) (run ifStep .start [.attach lo0 true])
        (linkName 0 [108, 111, 48])).map (fun r => r.map fun ifa => ifa.addr.index) =
          some (some 1) := by
  constructor
  · decide +kernel
  · decide +kernel

end VxWorks.Netinet
