import Mathlib.Data.List.Nodup
import Mathlib.Logic.Function.Basic
import VxWorks.Lib.Run
import VxWorks.Netinet.InPcb

/-!
# The addresses of the interfaces (in.c)

`in_control` keeps the internet addresses in two lists: one of all of them, and one for each
interface with its other addresses. A request for an interface that has no address yet makes one
and links it into both lists before anything else of the request is looked at, and nothing takes it
out again when the request fails after all.

Addresses are numbers, in host order. `ia_broadaddr` is the same memory as `ia_dstaddr`, and
`ifra_broadaddr` as `ifra_dstaddr`. What the driver and the routing table answer is part of the
request; they do not change the lists or what is in them. That an interface joins the group of all
hosts is left out here.
-/

namespace VxWorks.Netinet

open VxWorks.Lib

/-! ## The code -/

/-- `struct sockaddr_in` -/
structure InSockaddr where
  len : UInt8
  family : UInt8
  port : UInt16
  addr : UInt32
deriving DecidableEq, Repr

/-- `struct in_ifaddr`. Of `ia_flags` there are `IFA_ROUTE` and, with `arp_rtrequest`,
`RTF_CLONING`; `loops` is whether `ifa_dstaddr` points to `ia_addr`. -/
structure InIa where
  ifp : Nat
  addr : InSockaddr
  dstaddr : InSockaddr
  sockmask : InSockaddr
  net : UInt32
  netmask : UInt32
  subnet : UInt32
  subnetmask : UInt32
  netbroadcast : UInt32
  route : Bool
  cloning : Bool
  loops : Bool
  metric : Nat
deriving DecidableEq, Repr

/-- An element of an interface's list: one of `in_ifaddr`, or another address. -/
inductive IfaPtr where
  | inet (i : Nat)
  | other (n : Nat)
deriving DecidableEq, Repr

/-- Memory, `in_ifaddr`, the lists `if_addrlist`, and `in_interfaces`. -/
structure InState where
  ia : Nat → InIa
  inIfaddr : List Nat
  addrlist : Nat → List IfaPtr
  inInterfaces : Nat

/-- What is read of the interface: the flags, whether it puts out with `ether_output`, whether it is
`loif`, and the metric. -/
structure InIfnet where
  ifp : Nat
  broadcast : Bool
  pointopoint : Bool
  loopback : Bool
  ether : Bool
  loif : Bool
  metric : Nat

/-- `SS_PRIV`, the memory that `MALLOC` has, and the errors of `if_ioctl` and of `rtinit`; an
interface without `if_ioctl` is one whose answer is 0. -/
structure InAnswers where
  priv : Bool
  malloc : Option Nat
  ioctl : Nat
  rtinit : Nat

inductive InReq where
  | sifaddr (addr : InSockaddr)
  | sifnetmask (addr : InSockaddr)
  | sifdstaddr (dstaddr : InSockaddr)
  | aifaddr (addr dstaddr mask : InSockaddr)
  | difaddr (addr : InSockaddr)

def eperm : Nat := 1

def einval : Nat := 22

def eaddrnotavail : Nat := 49

def enobufs : Nat := 55

def InState.set (s : InState) (i : Nat) (ia : InIa) : InState :=
  { s with ia := Function.update s.ia i ia }

/-- `in_socktrim` -/
def inSocktrim (ap : InSockaddr) : InSockaddr :=
  { ap with len :=
      if ap.addr &&& 0xff ≠ 0 then 8
      else if ap.addr &&& 0xff00 ≠ 0 then 7
      else if ap.addr &&& 0xff0000 ≠ 0 then 6
      else if ap.addr &&& 0xff000000 ≠ 0 then 5
      else 0 }

/-- `in_ifscrub` -/
def inIfscrub (ia : InIa) : InIa := if ia.route then { ia with route := false } else ia

/-- `IN_CLASSA_NET`, `IN_CLASSB_NET`, `IN_CLASSC_NET` -/
def inClassNet (i : UInt32) : UInt32 :=
  if i &&& 0x80000000 = 0 then 0xff000000
  else if i &&& 0xc0000000 = 0x80000000 then 0xffff0000
  else 0xffffff00

/-- `in_ifinit`, up to the route: the masks and the networks. -/
def inIfinitMasks (n : InIfnet) (ia : InIa) (i : UInt32) : InIa :=
  let ia := { ia with netmask := inClassNet i }
  let ia :=
    if ia.subnetmask = 0 then
      { ia with subnetmask := ia.netmask, sockmask := { ia.sockmask with addr := ia.netmask } }
    else { ia with netmask := ia.netmask &&& ia.subnetmask }
  { ia with
    net := i &&& ia.netmask
    subnet := i &&& ia.subnetmask
    sockmask := inSocktrim ia.sockmask
    metric := n.metric }

/-- `in_ifinit`, from where the driver has taken the address up to the route. -/
def inIfinitIa (n : InIfnet) (ia : InIa) (sin : InSockaddr) (scrub : Bool) : InIa :=
  let ia := { ia with addr := sin }
  let ia := if n.ether then { ia with cloning := true } else ia
  let ia := if scrub then inIfscrub ia else ia
  let ia := inIfinitMasks n ia sin.addr
  if n.broadcast then
    { ia with
      dstaddr := { ia.dstaddr with addr := ia.subnet ||| ~~~ ia.subnetmask }
      netbroadcast := ia.net ||| ~~~ ia.netmask }
  else if n.loopback then { ia with loops := true }
  else ia

/-- A point to point link without an address at its other end gets no route. -/
def inIfinitBare (n : InIfnet) (ia : InIa) : Prop :=
  n.broadcast = false ∧ n.loopback = false ∧ n.pointopoint = true ∧ ia.dstaddr.family ≠ afInet

instance (n : InIfnet) (ia : InIa) : Decidable (inIfinitBare n ia) :=
  inferInstanceAs (Decidable (_ ∧ _ ∧ _ ∧ _))

/-- `in_ifinit` -/
def inIfinit (n : InIfnet) (a : InAnswers) (ia : InIa) (sin : InSockaddr) (scrub : Bool) :
    Nat × InIa :=
  if a.ioctl ≠ 0 then (a.ioctl, ia)
  else
    let ia := inIfinitIa n ia sin scrub
    if inIfinitBare n ia then (0, ia)
    else (a.rtinit, if a.rtinit = 0 then { ia with route := true } else ia)

/-- The record that is found for the request. -/
def requestIa (n : InIfnet) (s : InState) (r : InReq) : Option Nat :=
  let named (addr : InSockaddr) : Option Nat :=
    if addr.family = afInet then
      (s.inIfaddr.dropWhile fun i => (s.ia i).ifp ≠ n.ifp).find? fun i =>
        (s.ia i).ifp = n.ifp ∧ (s.ia i).addr.addr = addr.addr
    else s.inIfaddr.find? fun i => (s.ia i).ifp = n.ifp
  match r with
  | .aifaddr addr _ _ => named addr
  | .difaddr addr => named addr
  | _ => s.inIfaddr.find? fun i => (s.ia i).ifp = n.ifp

/-- What a new record is before the request has set anything in it. -/
def newIa (n : InIfnet) : InIa where
  ifp := n.ifp
  addr := ⟨0, 0, 0, 0⟩
  dstaddr := if n.broadcast then ⟨16, afInet, 0, 0⟩ else ⟨0, 0, 0, 0⟩
  sockmask := ⟨8, 0, 0, 0⟩
  net := 0
  netmask := 0
  subnet := 0
  subnetmask := 0
  netbroadcast := 0
  route := false
  cloning := false
  loops := false
  metric := 0

/-- The new record, linked in at the ends. -/
def linkIa (n : InIfnet) (s : InState) (i : Nat) : InState where
  ia := Function.update s.ia i (newIa n)
  inIfaddr := s.inIfaddr ++ [i]
  addrlist := Function.update s.addrlist n.ifp (s.addrlist n.ifp ++ [.inet i])
  inInterfaces := if n.loif then s.inInterfaces else s.inInterfaces + 1

/-- `SIOCAIFADDR`: the address, whether it is new to the record, the record with the mask and the
other end of the link, and whether one of them is new. -/
def aifTarget (ia : InIa) (addr : InSockaddr) : InSockaddr × Bool :=
  if ia.addr.family = afInet then
    if addr.len = 0 then (ia.addr, false) else (addr, addr.addr ≠ ia.addr.addr)
  else (addr, true)

def aifMasks (n : InIfnet) (ia : InIa) (dstaddr mask : InSockaddr) : InIa × Bool :=
  let (ia, maskIsNew) :=
    if mask.len ≠ 0 then
      ({ inIfscrub ia with sockmask := mask, subnetmask := mask.addr }, true)
    else (ia, false)
  if n.pointopoint ∧ dstaddr.family = afInet then ({ inIfscrub ia with dstaddr := dstaddr }, true)
  else (ia, maskIsNew)

/-- The `switch` on the request, for record `i`. -/
def inServe (n : InIfnet) (a : InAnswers) (s : InState) (i : Nat) : InReq → Nat × InState
  | .sifdstaddr dstaddr =>
      if n.pointopoint = false then (einval, s)
      else if a.ioctl ≠ 0 then (a.ioctl, s)
      else
        let ia := { s.ia i with dstaddr := dstaddr }
        (0, s.set i (if ia.route then { ia with loops := false } else ia))
  | .sifaddr addr =>
      let (error, ia) := inIfinit n a (s.ia i) addr true
      (error, s.set i ia)
  | .sifnetmask addr =>
      let ia := s.ia i
      (0, s.set i { ia with
        subnetmask := addr.addr
        sockmask := inSocktrim { ia.sockmask with addr := addr.addr } })
  | .aifaddr addr dstaddr mask =>
      let (addr, hostIsNew) := aifTarget (s.ia i) addr
      let (ia, maskIsNew) := aifMasks n (s.ia i) dstaddr mask
      let (error, ia) :=
        if addr.family = afInet ∧ (hostIsNew ∨ maskIsNew) then inIfinit n a ia addr false
        else (0, ia)
      let ia :=
        if n.broadcast ∧ dstaddr.family = afInet ∧ dstaddr.addr ≠ 0 then
          { ia with dstaddr := dstaddr }
        else ia
      (error, s.set i ia)
  | .difaddr _ =>
      let s := s.set i (inIfscrub (s.ia i))
      (0, { s with
        addrlist := Function.update s.addrlist n.ifp ((s.addrlist n.ifp).erase (.inet i))
        inIfaddr := s.inIfaddr.erase i })

/-- `in_control`. The allocator does not hand out a record of the list. -/
def inControl (n : InIfnet) (a : InAnswers) (s : InState) (r : InReq) : Nat × InState :=
  match requestIa n s r, r with
  | none, .difaddr _ => (eaddrnotavail, s)
  | some i, _ => if a.priv = false then (eperm, s) else inServe n a s i r
  | none, _ =>
      if a.priv = false then (eperm, s)
      else
        match a.malloc.filter (· ∉ s.inIfaddr) with
        | none => (enobufs, s)
        | some i => inServe n a (linkIa n s i) i r

/-! ## Runs -/

structure InEvent where
  n : InIfnet
  a : InAnswers
  r : InReq

def inControlStep (s : InState) (e : InEvent) : InState := (inControl e.n e.a s e.r).2

/-- The records in an interface's list. -/
def inets (l : List IfaPtr) : List Nat :=
  l.filterMap fun
    | .inet i => some i
    | .other _ => none

/-- Every record is in `in_ifaddr` once, and the records of an interface are in its list, in the
same order. -/
structure InLists (s : InState) : Prop where
  nodup : s.inIfaddr.Nodup
  each : ∀ ifp, inets (s.addrlist ifp) = s.inIfaddr.filter fun i => (s.ia i).ifp = ifp

/-- The lists and the records in them are as they were. -/
structure InSame (s s' : InState) : Prop where
  inIfaddr : s'.inIfaddr = s.inIfaddr
  addrlist : s'.addrlist = s.addrlist
  ia : ∀ i ∈ s.inIfaddr, s'.ia i = s.ia i

/-- `in_ifinit` fails: the driver does not take the address, or there is no route for it. -/
def InitFails (n : InIfnet) (a : InAnswers) (ia : InIa) : Prop :=
  a.ioctl ≠ 0 ∨ a.rtinit ≠ 0 ∧ ¬ inIfinitBare n ia

/-- The request fails when it is carried out for this record. -/
def InFails (n : InIfnet) (a : InAnswers) (ia : InIa) : InReq → Prop
  | .sifdstaddr _ => n.pointopoint = false ∨ a.ioctl ≠ 0
  | .sifaddr _ => InitFails n a ia
  | .aifaddr addr dstaddr mask =>
      (aifTarget ia addr).1.family = afInet ∧
        ((aifTarget ia addr).2 = true ∨ (aifMasks n ia dstaddr mask).2 = true) ∧
        InitFails n a (aifMasks n ia dstaddr mask).1
  | _ => False

/-- Something is set in the record that is not set back: what `in_ifinit` sets when the driver has
taken the address, and a mask and another end of the link, or a broadcast address. -/
def InSets (n : InIfnet) (a : InAnswers) (ia : InIa) : InReq → Prop
  | .sifaddr _ => a.ioctl = 0
  | .aifaddr _ dstaddr mask =>
      a.ioctl = 0 ∨ (aifMasks n ia dstaddr mask).2 = true ∨
        n.broadcast = true ∧ dstaddr.family = afInet ∧ dstaddr.addr ≠ 0
  | _ => False

/-- A request that makes a record does not fail, and one that fails for a record that is there has
set nothing in it. -/
def InFine (s : InState) (e : InEvent) : Prop :=
  e.a.priv = true →
    match requestIa e.n s e.r with
    | some i => InFails e.n e.a (s.ia i) e.r → ¬ InSets e.n e.a (s.ia i) e.r
    | none => (e.a.malloc.filter (· ∉ s.inIfaddr)).isSome → ¬ InFails e.n e.a (newIa e.n) e.r

section

variable {n : InIfnet} {a : InAnswers} {s : InState} {ia : InIa} {i : Nat}

/-- What no step of `in_ifinit` changes. -/
structure InKept (ia ia' : InIa) : Prop where
  ifp : ia'.ifp = ia.ifp
  family : ia'.dstaddr.family = ia.dstaddr.family

theorem InKept.trans {ia' ia'' : InIa} (h : InKept ia ia') (h' : InKept ia' ia'') :
    InKept ia ia'' :=
  ⟨h'.ifp.trans h.ifp, h'.family.trans h.family⟩

theorem inIfscrub_kept : InKept ia (inIfscrub ia) := by
  rw [inIfscrub]
  split
  · exact ⟨rfl, rfl⟩
  · exact ⟨rfl, rfl⟩

theorem inIfinitMasks_kept (sin : UInt32) : InKept ia (inIfinitMasks n ia sin) := by
  rw [inIfinitMasks]
  dsimp only
  split
  · exact ⟨rfl, rfl⟩
  · exact ⟨rfl, rfl⟩

theorem inIfinitIa_kept (sin : InSockaddr) (scrub : Bool) :
    InKept ia (inIfinitIa n ia sin scrub) := by
  have haddr : InKept ia { ia with addr := sin } := ⟨rfl, rfl⟩
  have hcloning : ∀ ia : InIa, InKept ia (if n.ether then { ia with cloning := true } else ia) := by
    intro ia
    split
    · exact ⟨rfl, rfl⟩
    · exact ⟨rfl, rfl⟩
  have hscrub : ∀ ia : InIa, InKept ia (if scrub then inIfscrub ia else ia) := by
    intro ia
    split
    · exact inIfscrub_kept
    · exact ⟨rfl, rfl⟩
  have hmasks := (haddr.trans (hcloning _)).trans ((hscrub _).trans
    (inIfinitMasks_kept (n := n) sin.addr))
  rw [inIfinitIa]
  dsimp only
  split
  · exact hmasks.trans ⟨rfl, rfl⟩
  split
  · exact hmasks.trans ⟨rfl, rfl⟩
  · exact hmasks

theorem inIfinit_ifp (sin : InSockaddr) (scrub : Bool) :
    (inIfinit n a ia sin scrub).2.ifp = ia.ifp := by
  have hkept : InKept ia (inIfinitIa n ia sin scrub) := inIfinitIa_kept sin scrub
  rw [inIfinit]
  split
  · rfl
  dsimp only
  split
  · exact hkept.ifp
  · dsimp only
    split
    · exact hkept.ifp
    · exact hkept.ifp

theorem inIfinit_error {sin : InSockaddr} {scrub : Bool} (h : (inIfinit n a ia sin scrub).1 ≠ 0) :
    InitFails n a ia := by
  have hkept : InKept ia (inIfinitIa n ia sin scrub) := inIfinitIa_kept sin scrub
  rw [inIfinit] at h
  split at h
  · next hioctl => exact .inl hioctl
  · dsimp only at h
    split at h
    · exact absurd rfl h
    · next hbare =>
        refine .inr ⟨h, fun hcon => hbare ?_⟩
        rw [inIfinitBare, hkept.family]
        exact hcon

/-- Where the driver does not take the address. -/
theorem inIfinit_refused (h : a.ioctl ≠ 0) (sin : InSockaddr) (scrub : Bool) :
    inIfinit n a ia sin scrub = (a.ioctl, ia) := by
  rw [inIfinit, if_pos h]

theorem aifMasks_ifp (dstaddr mask : InSockaddr) : (aifMasks n ia dstaddr mask).1.ifp = ia.ifp := by
  have hmask : (if mask.len ≠ 0 then
      ({ inIfscrub ia with sockmask := mask, subnetmask := mask.addr }, true)
      else (ia, false)).1.ifp = ia.ifp := by
    split
    · exact inIfscrub_kept.ifp
    · rfl
  rw [aifMasks]
  dsimp only
  split
  · exact inIfscrub_kept.ifp.trans hmask
  · exact hmask

/-- Without a new mask or other end the record is as it was. -/
theorem aifMasks_same {dstaddr mask : InSockaddr} (h : (aifMasks n ia dstaddr mask).2 ≠ true) :
    (aifMasks n ia dstaddr mask).1 = ia := by
  rw [aifMasks] at h ⊢
  dsimp only at h ⊢
  split
  · next hpoint => exact absurd (by rw [if_pos hpoint]) h
  · next hpoint =>
      rw [if_neg hpoint] at h
      split
      · next hmask => exact absurd (by rw [if_pos hmask]) h
      · rfl

theorem set_self : s.set i (s.ia i) = s := by
  rw [InState.set, Function.update_eq_self]

/-- A record of the interface stays one, whatever is set in it. -/
theorem InLists.set (hs : InLists s) (ia' : InIa) (hifp : ia'.ifp = (s.ia i).ifp) :
    InLists (s.set i ia') := by
  refine ⟨hs.nodup, ?_⟩
  intro ifp
  rw [InState.set]
  dsimp only
  rw [hs.each ifp]
  refine List.filter_congr ?_
  intro j _
  have hj : (Function.update s.ia i ia' j).ifp = (s.ia j).ifp := by
    by_cases hj : j = i
    · rw [hj, Function.update_self, hifp]
    · rw [Function.update_of_ne hj]
  rw [decide_eq_decide, hj]

theorem inets_append (l m : List IfaPtr) : inets (l ++ m) = inets l ++ inets m :=
  List.filterMap_append

@[simp] theorem inets_inet (j : Nat) (l : List IfaPtr) : inets (.inet j :: l) = j :: inets l := rfl

@[simp] theorem inets_other (k : Nat) (l : List IfaPtr) : inets (.other k :: l) = inets l := rfl

theorem inets_erase (l : List IfaPtr) (i : Nat) :
    inets (l.erase (.inet i)) = (inets l).erase i := by
  induction l with
  | nil => rfl
  | cons p l ih =>
      cases p with
      | other k =>
          rw [List.erase_cons_tail (by simp), inets_other, inets_other, ih]
      | inet j =>
          by_cases hj : j = i
          · rw [hj, List.erase_cons_head, inets_inet, List.erase_cons_head]
          · have hne : ¬ (IfaPtr.inet j == IfaPtr.inet i) = true := by simpa using hj
            have hne' : ¬ (j == i) = true := by simpa using hj
            rw [List.erase_cons_tail hne, inets_inet, inets_inet, List.erase_cons_tail hne', ih]

/-- The new record is the last of both lists. -/
theorem InLists.link (hs : InLists s) (hi : i ∉ s.inIfaddr) : InLists (linkIa n s i) := by
  refine ⟨?_, ?_⟩
  · exact List.nodup_append.mpr ⟨hs.nodup, List.nodup_singleton i, by
      intro j hj k hk
      rw [List.mem_singleton.mp hk]
      exact fun heq => hi (heq ▸ hj)⟩
  · intro ifp
    have hold : (s.inIfaddr.filter fun j => (Function.update s.ia i (newIa n) j).ifp = ifp) =
        s.inIfaddr.filter fun j => (s.ia j).ifp = ifp := by
      refine List.filter_congr ?_
      intro j hj
      rw [Function.update_of_ne fun heq : j = i => hi (heq ▸ hj)]
    rw [linkIa]
    dsimp only
    rw [List.filter_append, hold, ← hs.each ifp]
    by_cases hifp : ifp = n.ifp
    · rw [hifp, Function.update_self, inets_append]
      simp [newIa, inets]
    · rw [Function.update_of_ne hifp]
      simp [newIa, Ne.symm hifp]

theorem find_ifp {l : List Nat} {p : Nat → Prop} [DecidablePred p]
    (hp : ∀ j, p j → (s.ia j).ifp = n.ifp) (h : l.find? (fun j => p j) = some i) :
    i ∈ l ∧ (s.ia i).ifp = n.ifp :=
  by
  have hpi : decide (p i) = true := by simpa using List.find?_some h
  exact ⟨List.mem_of_find?_eq_some h, hp i (of_decide_eq_true hpi)⟩

theorem requestIa_some {r : InReq} (h : requestIa n s r = some i) :
    i ∈ s.inIfaddr ∧ (s.ia i).ifp = n.ifp := by
  have hnamed : ∀ addr : InSockaddr,
      (if addr.family = afInet then
        (s.inIfaddr.dropWhile fun i => (s.ia i).ifp ≠ n.ifp).find? fun i =>
          (s.ia i).ifp = n.ifp ∧ (s.ia i).addr.addr = addr.addr
      else s.inIfaddr.find? fun i => (s.ia i).ifp = n.ifp) = some i →
      i ∈ s.inIfaddr ∧ (s.ia i).ifp = n.ifp := by
    intro addr h
    split at h
    · obtain ⟨hmem, hifp⟩ := find_ifp (fun _ hj => hj.1) h
      exact ⟨(List.dropWhile_sublist _).mem hmem, hifp⟩
    · exact find_ifp (fun _ hj => hj) h
  cases r with
  | aifaddr addr _ _ => exact hnamed addr h
  | difaddr addr => exact hnamed addr h
  | sifaddr _ => exact find_ifp (fun _ hj => hj) h
  | sifnetmask _ => exact find_ifp (fun _ hj => hj) h
  | sifdstaddr _ => exact find_ifp (fun _ hj => hj) h

theorem InLists.erase (hs : InLists s) (hifp : (s.ia i).ifp = n.ifp) :
    InLists { s with
      addrlist := Function.update s.addrlist n.ifp ((s.addrlist n.ifp).erase (.inet i))
      inIfaddr := s.inIfaddr.erase i } := by
  refine ⟨hs.nodup.erase i, ?_⟩
  intro ifp
  dsimp only
  by_cases heq : ifp = n.ifp
  · rw [heq, Function.update_self, inets_erase, hs.each, (hs.nodup.filter _).erase_eq_filter,
      hs.nodup.erase_eq_filter, List.filter_filter, List.filter_filter]
    exact List.filter_congr fun j _ => Bool.and_comm ..
  · rw [Function.update_of_ne heq, hs.each, hs.nodup.erase_eq_filter, List.filter_filter]
    refine List.filter_congr ?_
    intro j _
    by_cases hj : j = i
    · rw [hj, hifp, decide_eq_false (Ne.symm heq), Bool.false_and]
    · rw [(bne_iff_ne (a := j) (b := i)).mpr hj, Bool.and_true]

theorem InLists.serve (hs : InLists s) (hifp : (s.ia i).ifp = n.ifp) (r : InReq) :
    InLists (inServe n a s i r).2 := by
  cases r with
  | sifdstaddr dstaddr =>
      dsimp only [inServe]
      split
      · exact hs
      split
      · exact hs
      · refine hs.set _ ?_
        split
        · rfl
        · rfl
  | sifaddr addr => exact hs.set _ (inIfinit_ifp addr true)
  | sifnetmask addr => exact hs.set _ rfl
  | aifaddr addr dstaddr mask =>
      refine hs.set _ ?_
      have hinit : (if (aifTarget (s.ia i) addr).1.family = afInet ∧
          ((aifTarget (s.ia i) addr).2 = true ∨ (aifMasks n (s.ia i) dstaddr mask).2 = true) then
          inIfinit n a (aifMasks n (s.ia i) dstaddr mask).1 (aifTarget (s.ia i) addr).1 false
          else (0, (aifMasks n (s.ia i) dstaddr mask).1)).2.ifp = (s.ia i).ifp := by
        split
        · exact (inIfinit_ifp _ _).trans (aifMasks_ifp dstaddr mask)
        · exact aifMasks_ifp dstaddr mask
      dsimp only
      split
      · exact hinit
      · exact hinit
  | difaddr addr =>
      have hkept : InKept (s.ia i) (inIfscrub (s.ia i)) := inIfscrub_kept
      refine (hs.set _ hkept.ifp).erase ?_
      rw [InState.set]
      dsimp only
      rw [Function.update_self, hkept.ifp, hifp]

theorem inServe_error {r : InReq} (h : (inServe n a s i r).1 ≠ 0) : InFails n a (s.ia i) r := by
  cases r with
  | sifdstaddr dstaddr =>
      dsimp only [inServe] at h
      split at h
      · next hpoint => exact .inl hpoint
      split at h
      · next hioctl => exact .inr hioctl
      · exact absurd rfl h
  | sifaddr addr => exact inIfinit_error h
  | sifnetmask addr => exact absurd rfl h
  | aifaddr addr dstaddr mask =>
      dsimp only [inServe] at h
      split at h
      · next hinit => exact ⟨hinit.1, hinit.2, inIfinit_error h⟩
      · exact absurd rfl h
  | difaddr addr => exact absurd rfl h

theorem inServe_same {r : InReq} (h : (inServe n a s i r).1 ≠ 0) (hsets : ¬ InSets n a (s.ia i) r) :
    (inServe n a s i r).2 = s := by
  cases r with
  | sifdstaddr dstaddr =>
      dsimp only [inServe] at h ⊢
      split
      · rfl
      split
      · rfl
      · next hpoint hioctl => exact absurd (by rw [if_neg hpoint, if_neg hioctl]) h
  | sifaddr addr =>
      dsimp only [inServe]
      rw [inIfinit_refused hsets, set_self]
  | sifnetmask addr => exact absurd rfl h
  | aifaddr addr dstaddr mask =>
      obtain ⟨hioctl, hmasks, hbroad⟩ : a.ioctl ≠ 0 ∧
          (aifMasks n (s.ia i) dstaddr mask).2 ≠ true ∧
          ¬ (n.broadcast = true ∧ dstaddr.family = afInet ∧ dstaddr.addr ≠ 0) :=
        ⟨fun h => hsets (.inl h), fun h => hsets (.inr (.inl h)), fun h => hsets (.inr (.inr h))⟩
      dsimp only [inServe]
      rw [if_neg hbroad, inIfinit_refused hioctl, aifMasks_same hmasks]
      split
      · exact set_self
      · exact set_self
  | difaddr addr => exact absurd rfl h

/-- A request changes nothing, or is carried out for the record that was found, or for a new one. -/
theorem inControl_cases (n : InIfnet) (a : InAnswers) (s : InState) (r : InReq) :
    (inControl n a s r).2 = s ∨
    (∃ i, a.priv = true ∧ requestIa n s r = some i ∧ inControl n a s r = inServe n a s i r) ∨
    ∃ i, a.priv = true ∧ requestIa n s r = none ∧ a.malloc.filter (· ∉ s.inIfaddr) = some i ∧
      inControl n a s r = inServe n a (linkIa n s i) i r := by
  unfold inControl
  split
  · exact .inl rfl
  · next _ i hfound =>
      split
      · exact .inl rfl
      · next hpriv => exact .inr (.inl ⟨i, eq_true_of_ne_false hpriv, hfound, rfl⟩)
  · next hnone =>
      split
      · exact .inl rfl
      · next hpriv =>
          split
          · exact .inl rfl
          · next i hmalloc =>
              exact .inr (.inr ⟨i, eq_true_of_ne_false hpriv, hnone, hmalloc, rfl⟩)

theorem linkIa_ia : (linkIa n s i).ia i = newIa n := by
  rw [linkIa]
  dsimp only
  rw [Function.update_self]

/-- Whatever is requested and whatever fails, the lists have the same records. -/
theorem InLists.step (hs : InLists s) (e : InEvent) : InLists (inControlStep s e) := by
  rw [inControlStep]
  obtain hsame | ⟨i, _, hfound, hserve⟩ | ⟨i, _, _, hmalloc, hserve⟩ :=
    inControl_cases e.n e.a s e.r
  · rw [hsame]
    exact hs
  · rw [hserve]
    exact hs.serve (requestIa_some hfound).2 e.r
  · have hi : i ∉ s.inIfaddr := of_decide_eq_true (Option.filter_eq_some_iff.mp hmalloc).2
    rw [hserve]
    refine (hs.link hi).serve ?_ e.r
    rw [linkIa_ia, newIa]

/-- A request that is fine leaves everything as it was when it fails. -/
theorem InFine.same {e : InEvent} (hfine : InFine s e) (h : (inControl e.n e.a s e.r).1 ≠ 0) :
    inControlStep s e = s := by
  rw [inControlStep]
  obtain hsame | ⟨i, hpriv, hfound, hserve⟩ | ⟨i, hpriv, hnone, hmalloc, hserve⟩ :=
    inControl_cases e.n e.a s e.r
  · exact hsame
  · have hsets := hfine hpriv
    rw [hfound] at hsets
    rw [hserve] at h ⊢
    exact inServe_same h (hsets (inServe_error h))
  · have hserves := hfine hpriv
    rw [hnone] at hserves
    rw [hserve] at h
    have hfails := inServe_error h
    rw [linkIa_ia] at hfails
    exact absurd hfails (hserves (by rw [hmalloc]; rfl))

end

/-! ## The lists and the errors -/

/-- In every run the two lists have the same records, each once. Where every request is fine, one
that fails leaves the lists and the records in them as they were. -/
theorem in_control_sound {s : InState} (hs : InLists s) {es : List InEvent}
    (h : Guarded inControlStep InFine s es) :
    Always inControlStep InLists s es ∧
      ∀ pre e, pre ++ [e] <+: es → (inControl e.n e.a (run inControlStep s pre) e.r).1 ≠ 0 →
        InSame (run inControlStep s pre) (run inControlStep s (pre ++ [e])) := by
  refine ⟨always_of_guarded InLists hs (fun t e ht _ => ht.step e) h, ?_⟩
  intro pre e hpre herror
  rw [run_concat, (h pre e hpre).same herror]
  exact ⟨rfl, rfl, fun _ _ => rfl⟩

/-- The loopback interface, and no addresses yet. -/
def inLo : InIfnet := ⟨0, false, false, true, false, true, 0⟩

def inBare : InState := ⟨fun _ => newIa inLo, [], fun _ => [], 0⟩

theorem inBare_lists : InLists inBare := ⟨List.nodup_nil, fun _ => rfl⟩

/-- `SIOCSIFADDR` for the loopback address, with the record at 1. -/
def inLoAddr : InEvent := ⟨inLo, ⟨true, some 1, 0, 0⟩, .sifaddr ⟨16, afInet, 0, 0x7f000001⟩⟩

/-- `SIOCSIFDSTADDR` for an interface that is no point to point link. -/
def inLoDst : InEvent := ⟨inLo, ⟨true, some 1, 0, 0⟩, .sifdstaddr ⟨16, afInet, 0, 0x7f000002⟩⟩

theorem in_control_sound_lo :
    Always inControlStep InLists inBare [inLoAddr, inLoDst] ∧
      ∀ pre e, pre ++ [e] <+: [inLoAddr, inLoDst] →
        (inControl e.n e.a (run inControlStep inBare pre) e.r).1 ≠ 0 →
        InSame (run inControlStep inBare pre) (run inControlStep inBare (pre ++ [e])) := by
  have haddr : InFine inBare inLoAddr := by
    intro _ _ hfails
    exact hfails.elim (absurd rfl) fun h => absurd rfl h.1
  have hdst : InFine (inControlStep inBare inLoAddr) inLoDst := by
    intro _
    exact fun _ hsets => hsets
  exact in_control_sound inBare_lists (guarded_cons haddr (guarded_cons hdst guarded_nil))

/-- The first request for the loopback interface sets the other end of the link. It is refused, and
there is a record without an address in both lists. -/
theorem in_control_left_linked :
    InLists inBare ∧ (inControl inLoDst.n inLoDst.a inBare inLoDst.r).1 = einval ∧
      (inControlStep inBare inLoDst).inIfaddr = [1] ∧
      (inControlStep inBare inLoDst).addrlist 0 = [.inet 1] ∧
      ¬ InSame inBare (inControlStep inBare inLoDst) := by
  refine ⟨inBare_lists, by decide, by decide, by decide, fun hsame => ?_⟩
  exact absurd hsame.inIfaddr (by decide)

end VxWorks.Netinet
