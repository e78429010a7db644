import Mathlib.Order.Bounds.Basic
import VxWorks.Netinet.IpMroute

/-!
# The virtual interfaces of the multicast router (ip_mroute.c)

A virtual interface is a physical one or the end of a tunnel; a request names it
by its index into `viftable`. `numvifs` is the high-water mark of the table: it
goes up with the index that is added, and when an interface is deleted it is
looked for again from above.

A physical interface has a list of the groups that have members on it, in a block
that is doubled when it is full, and in front of the list the group that was
asked for last, with the answer. A group can be added twice, and then it is in
the list twice; a deletion takes one of the two out, but it turns the remembered
answer to no as if it were the last.

A route keeps the index of the interface its datagrams come from, the way the
request had it. Nothing looks at it before `ip_mforward` does, as an index.

The header under `src` that should declare `struct vif` belongs to another
release; the fields are those the code uses. What `ifa_ifwithaddr` finds, what
the driver answers and whether `MALLOC` succeeds comes with each request.
-/

namespace VxWorks.Netinet

open VxWorks.Lib

/-! ## The table -/

/-- `struct vif`; `lclGrps` is the whole block. -/
structure VifEntry where
  flags : UInt8
  threshold : UInt8
  lclAddr : UInt32
  rmtAddr : UInt32
  ifp : Nat
  lclGrps : List UInt32
  lclGrpsMax : Nat
  lclGrpsN : Nat
  cachedGroup : UInt32
  cachedResult : Bool
deriving DecidableEq, Repr

/-- `bzero` of a `struct vif`. -/
def VifEntry.zero : VifEntry := ⟨0, 0, 0, 0, 0, [], 0, 0, 0, false⟩

/-- `VIFF_TUNNEL` in `v_flags`. -/
def VifEntry.tunnel (v : VifEntry) : Bool := v.flags &&& 1 != 0

/-- `MAXVIFS` -/
def maxvifs : Nat := 32

structure VifTable where
  viftable : Nat → VifEntry
  numvifs : Nat

def VifTable.start : VifTable := ⟨fun _ => .zero, 0⟩

/-- The errors of the requests; `driver` is what `if_ioctl` returned. -/
inductive VifErrno where
  | einval | eaddrinuse | eaddrnotavail | eopnotsupp | enobufs
  | driver (error : Nat)
deriving DecidableEq, Repr

/-- `struct vifctl` -/
structure Vifctl where
  vifi : UInt16
  flags : UInt8
  threshold : UInt8
  lclAddr : UInt32
  rmtAddr : UInt32

/-- What `add_vif` finds: the interface with the address, whether it has `IFF_MULTICAST`, and what
its `if_ioctl` returns. -/
structure VifFound where
  ifp : Nat
  multicast : Bool
  ioctl : Nat

def VifTable.set (t : VifTable) (i : Nat) (v : VifEntry) : VifTable :=
  { t with viftable := Function.update t.viftable i v }

/-- `add_vif` -/
def addVif (vifcp : Vifctl) (ifa : Option VifFound) (t : VifTable) : Option VifErrno × VifTable :=
  let i := vifcp.vifi.toNat
  let vif := t.viftable i
  if maxvifs ≤ i then (some .einval, t)
  else if vif.lclAddr ≠ 0 then (some .eaddrinuse, t)
  else
    match ifa with
    | none => (some .eaddrnotavail, t)
    | some ifa =>
        let tunnel := vifcp.flags &&& 1 != 0
        if !tunnel && !ifa.multicast then (some .eopnotsupp, t)
        else if !tunnel && ifa.ioctl != 0 then (some (.driver ifa.ioctl), t)
        else
          let vif := if tunnel then { vif with rmtAddr := vifcp.rmtAddr } else vif
          (none,
            { (t.set i
                { vif with flags := vifcp.flags, threshold := vifcp.threshold
                           lclAddr := vifcp.lclAddr, ifp := ifa.ifp }) with
              numvifs := if t.numvifs ≤ i then i + 1 else t.numvifs })

/-- The loop that adjusts `numvifs` down. -/
def lastVif (t : Nat → VifEntry) : Nat → Nat
  | 0 => 0
  | n + 1 => if (t n).lclAddr ≠ 0 then n + 1 else lastVif t n

/-- `del_vif` -/
def delVif (vifi : UInt16) (t : VifTable) : Option VifErrno × VifTable :=
  let i := vifi.toNat
  if t.numvifs ≤ i then (some .einval, t)
  else if (t.viftable i).lclAddr = 0 then (some .eaddrnotavail, t)
  else
    let t := t.set i .zero
    (none, { t with numvifs := lastVif t.viftable t.numvifs })

/-- The block for one group more, if there is one; `mem` is whether `MALLOC` succeeds. -/
def VifEntry.grow (v : VifEntry) (mem : Bool) : Option VifEntry :=
  if v.lclGrpsMax ≤ v.lclGrpsN + 1 then
    let num := if v.lclGrpsMax = 0 then 32 else v.lclGrpsMax + v.lclGrpsMax
    if mem then
      some { v with
        lclGrpsMax := num
        lclGrps := v.lclGrps.take v.lclGrpsN ++ List.replicate (num - v.lclGrpsN) 0 }
    else none
  else some v

/-- The end of `add_lgrp`. -/
def VifEntry.addGroup (v : VifEntry) (gaddr : UInt32) : VifEntry :=
  { v with
    lclGrps := v.lclGrps.set v.lclGrpsN gaddr
    lclGrpsN := v.lclGrpsN + 1
    cachedResult := if gaddr = v.cachedGroup then true else v.cachedResult }

/-- `add_lgrp` -/
def addLgrp (vifi : UInt16) (gaddr : UInt32) (mem : Bool) (t : VifTable) :
    Option VifErrno × VifTable :=
  let i := vifi.toNat
  let vif := t.viftable i
  if t.numvifs ≤ i then (some .einval, t)
  else if vif.lclAddr = 0 ∨ vif.tunnel = true then (some .eaddrnotavail, t)
  else
    match vif.grow mem with
    | none => (some .enobufs, t)
    | some vif => (none, t.set i (vif.addGroup gaddr))

/-- The groups in the list. -/
def VifEntry.groups (v : VifEntry) : List UInt32 := v.lclGrps.take v.lclGrpsN

/-- The end of `del_lgrp`: the first entry of the group is closed over. -/
def VifEntry.delGroup (v : VifEntry) (gaddr : UInt32) : Option VifErrno × VifEntry :=
  let v := { v with cachedResult := if gaddr = v.cachedGroup then false else v.cachedResult }
  match v.groups.idxOf? gaddr with
  | none => (some .eaddrnotavail, v)
  | some i =>
      let n := v.lclGrpsN - 1
      (none,
        { v with
          lclGrpsN := n
          lclGrps := v.lclGrps.take i ++ (v.lclGrps.drop (i + 1)).take (n - i) ++
            v.lclGrps.drop n })

/-- `del_lgrp` -/
def delLgrp (vifi : UInt16) (gaddr : UInt32) (t : VifTable) : Option VifErrno × VifTable :=
  let i := vifi.toNat
  let vif := t.viftable i
  if t.numvifs ≤ i then (some .einval, t)
  else if vif.lclAddr = 0 ∨ vif.tunnel = true then (some .eaddrnotavail, t)
  else
    let (error, vif) := vif.delGroup gaddr
    (error, t.set i vif)

/-- `grplst_member` -/
def grplstMember (v : VifEntry) (gaddr : UInt32) : Bool × VifEntry :=
  if gaddr = v.cachedGroup then (v.cachedResult, v)
  else
    let result := v.groups.contains gaddr
    (result, { v with cachedGroup := gaddr, cachedResult := result })

/-! ## Requests -/

/-- The requests for interfaces and groups, and the question of `ip_mforward`. -/
inductive VifOp where
  | addVif (vifcp : Vifctl) (ifa : Option VifFound)
  | delVif (vifi : UInt16)
  | addLgrp (vifi : UInt16) (gaddr : UInt32) (mem : Bool)
  | delLgrp (vifi : UInt16) (gaddr : UInt32)
  | member (vifi : Nat) (gaddr : UInt32)

def vifStep (t : VifTable) : VifOp → VifTable
  | .addVif vifcp ifa => (addVif vifcp ifa t).2
  | .delVif vifi => (delVif vifi t).2
  | .addLgrp vifi gaddr mem => (addLgrp vifi gaddr mem t).2
  | .delLgrp vifi gaddr => (delLgrp vifi gaddr t).2
  | .member vifi gaddr => t.set vifi (grplstMember (t.viftable vifi) gaddr).2

/-! ## Groups

What the block holds is said by the length of the block and the list of groups; the remembered
answer is right when it is the answer that the list gives. -/

structure VifEntry.Sized (v : VifEntry) : Prop where
  length : v.lclGrps.length = v.lclGrpsMax
  le : v.lclGrpsN ≤ v.lclGrpsMax

/-- The remembered answer is right, and so is every answer of `grplst_member`. -/
structure VifEntry.Coherent (v : VifEntry) : Prop where
  cached : v.cachedResult = decide (v.cachedGroup ∈ v.groups)
  member : ∀ gaddr, (grplstMember v gaddr).1 = decide (gaddr ∈ v.groups)

theorem coherent_of_cached {v : VifEntry} (h : v.cachedResult = decide (v.cachedGroup ∈ v.groups)) :
    v.Coherent := by
  refine ⟨h, ?_⟩
  intro gaddr
  rw [grplstMember]
  split
  · next heq => rw [heq, h]
  · exact List.contains_eq_mem gaddr v.groups

theorem VifEntry.zero_sized : VifEntry.zero.Sized := ⟨rfl, Nat.le_refl _⟩

theorem VifEntry.zero_coherent : VifEntry.zero.Coherent := coherent_of_cached rfl

theorem VifEntry.Sized.length_groups {v : VifEntry} (h : v.Sized) :
    v.groups.length = v.lclGrpsN := by
  rw [VifEntry.groups, List.length_take, h.length, Nat.min_eq_left h.le]

/-- What growing the block keeps. -/
structure VifEntry.Grown (v v' : VifEntry) : Prop where
  sized : v'.Sized
  room : v'.lclGrpsN < v'.lclGrpsMax
  groups : v'.groups = v.groups
  lclAddr : v'.lclAddr = v.lclAddr
  cachedGroup : v'.cachedGroup = v.cachedGroup
  cachedResult : v'.cachedResult = v.cachedResult

theorem VifEntry.Sized.grow {v v' : VifEntry} {mem : Bool} (h : v.Sized)
    (hgrow : v.grow mem = some v') : v.Grown v' := by
  have hle := h.le
  rw [VifEntry.grow] at hgrow
  split at hgrow
  · dsimp only at hgrow
    generalize hnum : (if v.lclGrpsMax = 0 then 32 else v.lclGrpsMax + v.lclGrpsMax) = num at hgrow
    have hroom : v.lclGrpsN < num := by
      rw [← hnum]
      split
      · omega
      · omega
    split at hgrow
    · cases hgrow
      have hlen := h.length_groups
      refine ⟨⟨?_, Nat.le_of_lt hroom⟩, hroom, ?_, rfl, rfl, rfl⟩
      · show (v.groups ++ List.replicate (num - v.lclGrpsN) 0).length = num
        rw [List.length_append, List.length_replicate, hlen]
        omega
      · exact List.take_left' hlen
    · cases hgrow
  · next hmax =>
      cases hgrow
      exact ⟨h, by omega, rfl, rfl, rfl, rfl⟩

theorem VifEntry.addGroup_groups {v : VifEntry} (h : v.Sized) (hroom : v.lclGrpsN < v.lclGrpsMax)
    (gaddr : UInt32) :
    (v.addGroup gaddr).Sized ∧ (v.addGroup gaddr).groups = v.groups ++ [gaddr] := by
  have hlt : v.lclGrpsN < v.lclGrps.length := h.length ▸ hroom
  refine ⟨⟨(List.length_set ..).trans h.length, hroom⟩, ?_⟩
  show (v.lclGrps.set v.lclGrpsN gaddr).take (v.lclGrpsN + 1) = v.lclGrps.take v.lclGrpsN ++ [gaddr]
  rw [List.take_add_one, List.take_set_of_le (Nat.le_refl _), List.getElem?_set_self hlt]
  rfl

/-- A deletion takes the first of the entries of the group out of the list. -/
theorem VifEntry.delGroup_groups {v : VifEntry} (h : v.Sized) (gaddr : UInt32) :
    (v.delGroup gaddr).2.Sized ∧ (v.delGroup gaddr).2.groups = v.groups.erase gaddr := by
  have hlen := h.length_groups
  have hle := h.le
  have hmax := h.length
  rw [VifEntry.delGroup, List.erase_eq_eraseIdx]
  dsimp only [VifEntry.groups]
  cases hidx : (v.lclGrps.take v.lclGrpsN).idxOf? gaddr with
  | none => exact ⟨⟨h.length, h.le⟩, rfl⟩
  | some i =>
      have hi : i < v.lclGrpsN := by
        rw [← hlen, VifEntry.groups]
        exact (List.findIdx?_eq_some_iff_getElem.mp hidx).1
      have hmoved : (v.lclGrps.take i ++ (v.lclGrps.drop (i + 1)).take (v.lclGrpsN - 1 - i)).length =
          v.lclGrpsN - 1 := by
        rw [List.length_append, List.length_take, List.length_take, List.length_drop]
        omega
      refine ⟨⟨?_, ?_⟩, ?_⟩
      · show (_ ++ v.lclGrps.drop (v.lclGrpsN - 1)).length = v.lclGrpsMax
        rw [List.length_append, hmoved, List.length_drop]
        omega
      · show v.lclGrpsN - 1 ≤ v.lclGrpsMax
        omega
      · show List.take (v.lclGrpsN - 1) (_ ++ _) = (v.lclGrps.take v.lclGrpsN).eraseIdx i
        rw [List.take_left' hmoved, List.eraseIdx_eq_take_drop_succ, List.take_take, List.drop_take,
          Nat.min_eq_left (Nat.le_of_lt hi)]
        congr 2
        omega

theorem VifEntry.Coherent.addGroup {v : VifEntry} (h : v.Coherent) (hsize : v.Sized)
    (hroom : v.lclGrpsN < v.lclGrpsMax) (gaddr : UInt32) : (v.addGroup gaddr).Coherent := by
  refine coherent_of_cached ?_
  rw [(VifEntry.addGroup_groups hsize hroom gaddr).2]
  show (if gaddr = v.cachedGroup then true else v.cachedResult) =
    decide (v.cachedGroup ∈ v.groups ++ [gaddr])
  rw [h.cached]
  split
  · next heq => simp [heq]
  · next hne => simp [Ne.symm hne]

/-- The answer that is remembered after a deletion is right unless the group is still in the
list. -/
theorem VifEntry.delGroup_coherent_iff {v : VifEntry} (h : v.Coherent) (hsize : v.Sized)
    (gaddr : UInt32) :
    (v.delGroup gaddr).2.Coherent ↔ (gaddr = v.cachedGroup → v.groups.count gaddr ≤ 1) := by
  have hgroups := (VifEntry.delGroup_groups hsize gaddr).2
  have hgroup : (v.delGroup gaddr).2.cachedGroup = v.cachedGroup := by
    rw [VifEntry.delGroup]
    dsimp only
    split
    · rfl
    · rfl
  have hresult : (v.delGroup gaddr).2.cachedResult =
      if gaddr = v.cachedGroup then false else v.cachedResult := by
    rw [VifEntry.delGroup]
    dsimp only
    split
    · rfl
    · rfl
  have hcoherent : (v.delGroup gaddr).2.Coherent ↔
      (if gaddr = v.cachedGroup then false else v.cachedResult) =
        decide (v.cachedGroup ∈ v.groups.erase gaddr) := by
    rw [← hgroups, ← hresult]
    constructor
    · intro hv
      rw [← hgroup]
      exact hv.cached
    · intro hv
      refine coherent_of_cached ?_
      rw [hgroup]
      exact hv
  rw [hcoherent]
  by_cases heq : gaddr = v.cachedGroup
  · have hcount : v.cachedGroup ∈ v.groups.erase gaddr ↔ 2 ≤ v.groups.count gaddr := by
      rw [← heq, ← List.count_pos_iff, List.count_erase_self]
      omega
    rw [if_pos heq, eq_comm, decide_eq_false_iff_not, hcount]
    constructor
    · intro hfew _
      omega
    · intro hfew
      have hone := hfew heq
      omega
  · rw [if_neg heq, h.cached]
    refine iff_of_true ?_ fun hcon => absurd hcon heq
    rw [decide_eq_decide]
    exact (List.mem_erase_of_ne (Ne.symm heq)).symm

theorem VifEntry.Coherent.member_step {v : VifEntry} (h : v.Coherent) (gaddr : UInt32) :
    (grplstMember v gaddr).2.Coherent := by
  rw [grplstMember]
  split
  · exact h
  · exact coherent_of_cached (List.contains_eq_mem gaddr v.groups)

/-! ## The table of interfaces -/

/-- Every interface remembers a right answer. -/
def VifTable.Coherent (t : VifTable) : Prop := ∀ i, (t.viftable i).Coherent

/-- Every list is as long as its block allows. -/
def VifTable.Sized (t : VifTable) : Prop := ∀ i, (t.viftable i).Sized

/-- `add_lgrp` and `del_lgrp` work on the interface. -/
def VifTable.Physical (t : VifTable) (i : Nat) : Prop :=
  i < t.numvifs ∧ (t.viftable i).lclAddr ≠ 0 ∧ (t.viftable i).tunnel = false

/-- A group that is in the list more than once is not deleted while it is the one that is
remembered. -/
def LastOfGroup (t : VifTable) : VifOp → Prop
  | .delLgrp vifi gaddr =>
      t.Physical vifi.toNat → gaddr = (t.viftable vifi.toNat).cachedGroup →
        (t.viftable vifi.toNat).groups.count gaddr ≤ 1
  | _ => True

/-- What holds of every interface after one has changed. -/
theorem forall_set {P : VifEntry → Prop} {t : VifTable} (h : ∀ i, P (t.viftable i)) {i : Nat}
    {v : VifEntry} (hv : P v) (j : Nat) : P ((t.set i v).viftable j) := by
  rcases eq_or_ne j i with rfl | hne
  · simpa [VifTable.set] using hv
  · simpa [VifTable.set, hne] using h j

/-- Nothing stands against the request but the table. -/
def Vifctl.Admitted (vifcp : Vifctl) (ifa : Option VifFound) : Prop :=
  vifcp.vifi.toNat < maxvifs ∧
    ∃ found, ifa = some found ∧
      ((vifcp.flags &&& 1 != 0) = true ∨ (found.multicast = true ∧ found.ioctl = 0))

/-- What `add_vif` does: nothing, or the entry gets an interface and keeps its groups. -/
theorem addVif_cases (vifcp : Vifctl) (ifa : Option VifFound) (t : VifTable) :
    (addVif vifcp ifa t).2 = t ∨
      (vifcp.Admitted ifa ∧ (t.viftable vifcp.vifi.toNat).lclAddr = 0 ∧
        ∃ rmtAddr ifp, (addVif vifcp ifa t).2 =
          ⟨Function.update t.viftable vifcp.vifi.toNat
              { t.viftable vifcp.vifi.toNat with
                flags := vifcp.flags, threshold := vifcp.threshold, lclAddr := vifcp.lclAddr
                rmtAddr, ifp },
            if t.numvifs ≤ vifcp.vifi.toNat then vifcp.vifi.toNat + 1 else t.numvifs⟩) := by
  unfold addVif
  dsimp only
  by_cases hmax : maxvifs ≤ vifcp.vifi.toNat
  · rw [if_pos hmax]
    exact .inl rfl
  rw [if_neg hmax]
  by_cases hused : (t.viftable vifcp.vifi.toNat).lclAddr ≠ 0
  · rw [if_pos hused]
    exact .inl rfl
  rw [if_neg hused]
  cases ifa with
  | none => exact .inl rfl
  | some ifa =>
      dsimp only
      split
      · exact .inl rfl
      · next hmulticast =>
          split
          · exact .inl rfl
          · next hioctl =>
              refine .inr ⟨⟨Nat.not_le.mp hmax, ifa, rfl, ?_⟩, not_not.mp hused, ?_⟩
              · generalize (vifcp.flags &&& 1 != 0) = tunnel at hmulticast hioctl ⊢
                cases tunnel with
                | true => exact .inl rfl
                | false => exact .inr ⟨by simpa using hmulticast, by simpa using hioctl⟩
              · split
                · exact ⟨_, _, rfl⟩
                · exact ⟨_, _, rfl⟩

/-- What `del_vif` does. -/
theorem delVif_cases (vifi : UInt16) (t : VifTable) :
    (delVif vifi t).2 = t ∨
      (vifi.toNat < t.numvifs ∧ (t.viftable vifi.toNat).lclAddr ≠ 0 ∧
        (delVif vifi t).2 =
          ⟨Function.update t.viftable vifi.toNat .zero,
            lastVif (Function.update t.viftable vifi.toNat .zero) t.numvifs⟩) := by
  rw [delVif]
  dsimp only
  split
  · exact .inl rfl
  · next hin =>
      split
      · exact .inl rfl
      · next hused => exact .inr ⟨Nat.not_le.mp hin, hused, rfl⟩

/-- What `add_lgrp` does. -/
theorem addLgrp_cases {t : VifTable} (h : t.Sized) (vifi : UInt16) (gaddr : UInt32) (mem : Bool) :
    (addLgrp vifi gaddr mem t).2 = t ∨
      ∃ v, (t.viftable vifi.toNat).Grown v ∧
        (addLgrp vifi gaddr mem t).2 = t.set vifi.toNat (v.addGroup gaddr) := by
  rw [addLgrp]
  split
  · exact .inl rfl
  · split
    · exact .inl rfl
    · cases hgrow : (t.viftable vifi.toNat).grow mem with
      | none => exact .inl rfl
      | some v => exact .inr ⟨v, (h vifi.toNat).grow hgrow, rfl⟩

/-- What `del_lgrp` does. -/
theorem delLgrp_cases (vifi : UInt16) (gaddr : UInt32) (t : VifTable) :
    (¬ t.Physical vifi.toNat ∧ (delLgrp vifi gaddr t).2 = t) ∨
      (t.Physical vifi.toNat ∧ (delLgrp vifi gaddr t).2 =
        t.set vifi.toNat ((t.viftable vifi.toNat).delGroup gaddr).2) := by
  rw [delLgrp]
  dsimp only
  split
  · next hout => exact .inl ⟨fun hphys => absurd hphys.1 (Nat.not_lt.mpr hout), rfl⟩
  · next hin =>
      split
      · next hnone =>
          refine .inl ⟨?_, rfl⟩
          intro hphys
          rcases hnone with hfree | htunnel
          · exact hphys.2.1 hfree
          · rw [hphys.2.2] at htunnel
            cases htunnel
      · next hphys =>
          rw [not_or] at hphys
          exact .inr ⟨⟨Nat.not_le.mp hin, hphys.1, by simpa using hphys.2⟩, rfl⟩

theorem vifStep_sized {t : VifTable} (h : t.Sized) (op : VifOp) : (vifStep t op).Sized := by
  cases op with
  | addVif vifcp ifa =>
      rw [vifStep]
      rcases addVif_cases vifcp ifa t with heq | ⟨-, -, rmtAddr, ifp, heq⟩
      · rw [heq]
        exact h
      · rw [heq]
        have hold := h vifcp.vifi.toNat
        exact forall_set h ⟨hold.length, hold.le⟩
  | delVif vifi =>
      rw [vifStep]
      rcases delVif_cases vifi t with heq | ⟨-, -, heq⟩
      · rw [heq]
        exact h
      · rw [heq]
        exact forall_set h VifEntry.zero_sized
  | addLgrp vifi gaddr mem =>
      rw [vifStep]
      rcases addLgrp_cases h vifi gaddr mem with heq | ⟨v, hgrown, heq⟩
      · rw [heq]
        exact h
      · rw [heq]
        exact forall_set h (VifEntry.addGroup_groups hgrown.sized hgrown.room gaddr).1
  | delLgrp vifi gaddr =>
      rw [vifStep]
      rcases delLgrp_cases vifi gaddr t with ⟨-, heq⟩ | ⟨-, heq⟩
      · rw [heq]
        exact h
      · rw [heq]
        exact forall_set h (VifEntry.delGroup_groups (h _) gaddr).1
  | member vifi gaddr =>
      refine forall_set h ?_
      rw [grplstMember]
      split
      · exact h vifi
      · exact ⟨(h vifi).length, (h vifi).le⟩

/-- A request keeps the answers right exactly when it is no deletion of that kind. -/
theorem vifStep_coherent_iff {t : VifTable} (hsize : t.Sized) (h : t.Coherent) (op : VifOp) :
    (vifStep t op).Coherent ↔ LastOfGroup t op := by
  cases op with
  | addVif vifcp ifa =>
      refine iff_of_true ?_ trivial
      rw [vifStep]
      rcases addVif_cases vifcp ifa t with heq | ⟨-, -, rmtAddr, ifp, heq⟩
      · rw [heq]
        exact h
      · rw [heq]
        exact forall_set h (coherent_of_cached (h vifcp.vifi.toNat).cached)
  | delVif vifi =>
      refine iff_of_true ?_ trivial
      rw [vifStep]
      rcases delVif_cases vifi t with heq | ⟨-, -, heq⟩
      · rw [heq]
        exact h
      · rw [heq]
        exact forall_set h VifEntry.zero_coherent
  | addLgrp vifi gaddr mem =>
      refine iff_of_true ?_ trivial
      rw [vifStep]
      rcases addLgrp_cases hsize vifi gaddr mem with heq | ⟨v, hgrown, heq⟩
      · rw [heq]
        exact h
      · rw [heq]
        have hcached : v.Coherent := by
          refine coherent_of_cached ?_
          rw [hgrown.cachedResult, hgrown.cachedGroup, hgrown.groups]
          exact (h vifi.toNat).cached
        exact forall_set h (hcached.addGroup hgrown.sized hgrown.room gaddr)
  | delLgrp vifi gaddr =>
      rw [vifStep, LastOfGroup]
      rcases delLgrp_cases vifi gaddr t with ⟨hphys, heq⟩ | ⟨hphys, heq⟩
      · rw [heq]
        exact iff_of_true h fun hcon => absurd hcon hphys
      · rw [heq, imp_iff_right hphys, ← VifEntry.delGroup_coherent_iff (h _) (hsize _) gaddr]
        constructor
        · intro hall
          have hself := hall vifi.toNat
          simpa [VifTable.set] using hself
        · intro hself
          exact forall_set h hself
  | member vifi gaddr =>
      refine iff_of_true ?_ trivial
      exact forall_set h ((h vifi).member_step gaddr)

/-- Over any run of requests the remembered answers and what `grplst_member` returns are right in
every state exactly when no group was deleted while it was the one remembered and more than once in
its list. -/
theorem grplst_member_coherent_iff (ops : List VifOp) :
    Always vifStep VifTable.Coherent .start ops ↔ Guarded vifStep LastOfGroup .start ops :=
  always_iff_guarded (fun t : VifTable => t.Sized ∧ t.Coherent) (fun _ _ => True)
    ⟨fun _ => VifEntry.zero_sized, fun _ => VifEntry.zero_coherent⟩ (fun _ h => h.2)
    (fun _ op h _ hlast => ⟨vifStep_sized h.1 op, (vifStep_coherent_iff h.1 h.2 op).mpr hlast⟩)
    (fun _ op h _ hlast hcon => hlast ((vifStep_coherent_iff h.1 h.2 op).mp hcon))
    (fun _ _ _ => trivial)

/-- A physical interface for the tests, as a request and as it is found. -/
def vif0 : VifOp := .addVif ⟨0, 0, 1, 0x0a000001, 0⟩ (some ⟨1, true, 0⟩)

/-- A group that is added twice, asked for, and deleted once is still in the list, but the answer is
that it has no members. -/
theorem grplst_member_forgets :
    ¬ Always vifStep VifTable.Coherent .start
      [vif0, .addLgrp 0 0xe1000001 true, .addLgrp 0 0xe1000001 true, .member 0 0xe1000001,
        .delLgrp 0 0xe1000001] := by
  intro h
  have hcached := (h _ (List.prefix_refl _) 0).cached
  revert hcached
  decide

/-! ## The multicast router

The table of interfaces and the table of routes together. What a request makes of the first is
judged by the high-water mark, what it makes of the second by the routes that a lookup can find. -/

structure Mrouter where
  vifs : VifTable
  mrt : MrtTable

def Mrouter.start : Mrouter := ⟨.start, mrtStart⟩

/-- `ip_mrouter_done`: of each chain the first route is given back. -/
def ipMrouterDone (mrthashsiz : Nat) (s : Mrouter) : Mrouter :=
  let heads := (List.range mrthashsiz).filterMap fun i => (s.mrt.mrttable i).head?
  { vifs := .start
    mrt := { s.mrt with mrttable := fun _ => [], cachedMrt := none
                        live := fun i => s.mrt.live i && !heads.contains i } }

/-- A request for the interfaces, one for the routes or a lookup, or the end of the routing. -/
inductive MrouterOp where
  | vif (op : VifOp)
  | mrt (op : MrtOp)
  | done

def mrouterStep (c : MrtConf) (mrthashsiz : Nat) (s : Option Mrouter) (op : MrouterOp) :
    Option Mrouter :=
  s.bind fun s =>
    match op with
    | .vif op => some { s with vifs := vifStep s.vifs op }
    | .mrt op => (mrtCall c s.mrt op).map fun mrt => { s with mrt }
    | .done => some (ipMrouterDone mrthashsiz s)

/-- The indices of the interfaces in use. -/
def VifTable.inUse (t : VifTable) : Set Nat := { i | (t.viftable i).lclAddr ≠ 0 }

/-- The mark is one above the last interface in use, and the lists fit their blocks. -/
structure VifTable.Marked (t : VifTable) : Prop where
  mark : (t.numvifs = 0 ∧ t.inUse = ∅) ∨ ∃ k, t.numvifs = k + 1 ∧ IsGreatest t.inUse k
  beyond : ∀ i, t.numvifs ≤ i → (t.viftable i).lclAddr = 0
  groups : ∀ i, (t.viftable i).lclGrpsN ≤ (t.viftable i).lclGrpsMax

/-- Whatever route `ip_mforward` finds, its parent is an interface in use. -/
def Mrouter.ParentsUsed (c : MrtConf) (s : Mrouter) : Prop :=
  ∀ origin rt mrt, mrtfind c origin s.mrt = some (some rt, mrt) →
    (mrt.mrt rt).parent.toNat < s.vifs.numvifs ∧ (mrt.mrt rt).parent.toNat ∈ s.vifs.inUse

/-- The tables are as `ip_mforward` takes them to be. -/
structure Mrouter.Sound (c : MrtConf) (s : Mrouter) : Prop where
  vifs : s.vifs.Marked
  parents : s.ParentsUsed c

/-- The routes a lookup can find. -/
def MrtTable.Found (s : MrtTable) (rt : Nat) : Prop :=
  s.cachedMrt = some rt ∨ ∃ b, rt ∈ s.mrttable b

/-- There is a route to update, or memory for one. -/
def MrtTable.Admits (c : MrtConf) (s : MrtTable) (mrtcp : Mrt) (block : Option Nat) : Prop :=
  (∃ rt t, mrtfind c mrtcp.origin s = some (some rt, t)) ∨ s.malloc block ≠ none

/-- An interface that gets the address 0.0.0.0 stays below the mark; the parent of a route is an
interface in use; and the interface that goes is no route's parent. -/
def KeepsParents (c : MrtConf) (s : Mrouter) : MrouterOp → Prop
  | .vif (.addVif vifcp ifa) =>
      vifcp.Admitted ifa → vifcp.lclAddr = 0 → vifcp.vifi.toNat < s.vifs.numvifs
  | .vif (.delVif vifi) => ∀ rt, s.mrt.Found rt → (s.mrt.mrt rt).parent ≠ vifi
  | .mrt (.add mrtcp block) => s.mrt.Admits c mrtcp block → mrtcp.parent.toNat ∈ s.vifs.inUse
  | _ => True

/-- What carries the induction. -/
structure Mrouter.Inv (s : Mrouter) : Prop where
  sized : s.vifs.Sized
  last : s.vifs.numvifs = 0 ∨ s.vifs.numvifs - 1 ∈ s.vifs.inUse
  beyond : ∀ i ∈ s.vifs.inUse, i < s.vifs.numvifs
  parents : ∀ rt, s.mrt.Found rt → (s.mrt.mrt rt).parent.toNat ∈ s.vifs.inUse

theorem mrtfind_cases {c : MrtConf} {origin : UInt32} {s t : MrtTable} {rt : Option Nat}
    (h : mrtfind c origin s = some (rt, t)) :
    t.mrt = s.mrt ∧ t.live = s.live ∧ (∀ i, t.Found i → s.Found i) ∧
      ∀ i, rt = some i → s.Found i := by
  unfold mrtfind at h
  split at h
  · cases h
    exact ⟨rfl, rfl, fun _ hi => hi, fun i hi => .inl hi⟩
  · split at h
    · cases h
    · next hash _ =>
        split at h
        · next j hj =>
            cases h
            have hmem : s.Found j := .inr ⟨hash, List.mem_of_find?_eq_some hj⟩
            refine ⟨rfl, rfl, ?_, ?_⟩
            · rintro i (hi | hi)
              · cases hi
                exact hmem
              · exact .inr hi
            · intro i hi
              cases hi
              exact hmem
        · cases h
          exact ⟨rfl, rfl, fun _ hi => hi, fun i hi => by cases hi⟩

theorem Mrouter.Inv.sound {s : Mrouter} (h : s.Inv) (c : MrtConf) : s.Sound c := by
  refine ⟨⟨?_, ?_, fun i => (h.sized i).le⟩, ?_⟩
  · rcases h.last with hzero | hlast
    · refine .inl ⟨hzero, Set.eq_empty_of_forall_notMem ?_⟩
      intro i hi
      have hlt := h.beyond i hi
      omega
    · have hlt := h.beyond _ hlast
      refine .inr ⟨s.vifs.numvifs - 1, by omega, hlast, fun i hi => ?_⟩
      have hi := h.beyond i hi
      omega
  · intro i hi
    by_contra hused
    exact absurd (h.beyond i hused) (Nat.not_lt.mpr hi)
  · intro origin rt mrt hfind
    obtain ⟨hmrt, -, -, hfound⟩ := mrtfind_cases hfind
    rw [hmrt]
    have hused := h.parents rt (hfound rt rfl)
    exact ⟨h.beyond _ hused, hused⟩

/-- Below the mark the loop stops at the last interface in use. -/
theorem lastVif_spec (t : Nat → VifEntry) (n : Nat) :
    (lastVif t n = 0 ∨ (t (lastVif t n - 1)).lclAddr ≠ 0) ∧
      ∀ i < n, (t i).lclAddr ≠ 0 → i < lastVif t n := by
  induction n with
  | zero => exact ⟨.inl rfl, fun i hi => absurd hi (Nat.not_lt_zero i)⟩
  | succ n ih =>
      rw [lastVif]
      split
      · next hused => exact ⟨.inr hused, fun i hi _ => hi⟩
      · next hfree =>
          refine ⟨ih.1, ?_⟩
          intro i hi hused
          have hne : i ≠ n := by
            rintro rfl
            exact hfree hused
          exact ih.2 i (by omega) hused

section

variable {c : MrtConf} {s : Mrouter}

/-- A change in the interfaces that leaves those in use as they are. -/
theorem Mrouter.Inv.of_inUse (h : s.Inv) {t : VifTable} (hsized : t.Sized)
    (hnum : t.numvifs = s.vifs.numvifs) (huse : t.inUse = s.vifs.inUse) :
    Mrouter.Inv { s with vifs := t } := by
  refine ⟨hsized, ?_, ?_, ?_⟩
  · show t.numvifs = 0 ∨ t.numvifs - 1 ∈ t.inUse
    rw [hnum, huse]
    exact h.last
  · show ∀ i ∈ t.inUse, i < t.numvifs
    rw [hnum, huse]
    exact h.beyond
  · show ∀ rt, s.mrt.Found rt → (s.mrt.mrt rt).parent.toNat ∈ t.inUse
    rw [huse]
    exact h.parents

theorem inUse_set {t : VifTable} {i : Nat} {v : VifEntry} (h : v.lclAddr = (t.viftable i).lclAddr) :
    (t.set i v).inUse = t.inUse := by
  ext j
  rcases eq_or_ne j i with rfl | hne
  · simp [VifTable.inUse, VifTable.set, h]
  · simp [VifTable.inUse, VifTable.set, hne]

theorem mem_inUse_update {t : VifTable} {i n : Nat} {v : VifEntry} {j : Nat} :
    j ∈ VifTable.inUse ⟨Function.update t.viftable i v, n⟩ ↔
      (j = i ∧ v.lclAddr ≠ 0) ∨ (j ≠ i ∧ j ∈ t.inUse) := by
  rcases eq_or_ne j i with rfl | hne
  · simp [VifTable.inUse]
  · simp [VifTable.inUse, hne]

theorem Mrouter.Inv.addVif (h : s.Inv) {vifcp : Vifctl} {ifa : Option VifFound}
    (hkeep : KeepsParents c s (.vif (.addVif vifcp ifa))) :
    Mrouter.Inv { s with vifs := vifStep s.vifs (.addVif vifcp ifa) } := by
  have hsized := vifStep_sized h.sized (.addVif vifcp ifa)
  rw [vifStep] at hsized ⊢
  rcases addVif_cases vifcp ifa s.vifs with heq | ⟨hadm, hfree, rmtAddr, ifp, heq⟩
  · rw [heq]
    exact h
  rw [heq] at hsized ⊢
  have hin : ∀ j ∈ s.vifs.inUse, j ≠ vifcp.vifi.toNat := by
    rintro j hj rfl
    exact hj hfree
  have hzero := hkeep hadm
  refine ⟨hsized, ?_, ?_, ?_⟩
  · dsimp only
    rw [mem_inUse_update]
    split
    · next hmark => exact .inr (.inl ⟨rfl, fun hcon => Nat.not_lt.mpr hmark (hzero hcon)⟩)
    · rcases h.last with hlast | hlast
      · exact .inl hlast
      · exact .inr (.inr ⟨hin _ hlast, hlast⟩)
  · intro j hj
    dsimp only at hj ⊢
    rcases mem_inUse_update.mp hj with ⟨rfl, -⟩ | ⟨-, hj⟩
    · split
      · omega
      · omega
    · have hlt := h.beyond j hj
      split
      · omega
      · exact hlt
  · intro rt hrt
    have hused := h.parents rt hrt
    exact mem_inUse_update.mpr (.inr ⟨hin _ hused, hused⟩)

theorem Mrouter.Inv.delVif (h : s.Inv) {vifi : UInt16}
    (hkeep : KeepsParents c s (.vif (.delVif vifi))) :
    Mrouter.Inv { s with vifs := vifStep s.vifs (.delVif vifi) } := by
  have hsized := vifStep_sized h.sized (.delVif vifi)
  rw [vifStep] at hsized ⊢
  rcases delVif_cases vifi s.vifs with heq | ⟨-, -, heq⟩
  · rw [heq]
    exact h
  rw [heq] at hsized ⊢
  obtain ⟨hlast, hall⟩ :=
    lastVif_spec (Function.update s.vifs.viftable vifi.toNat .zero) s.vifs.numvifs
  refine ⟨hsized, hlast, ?_, ?_⟩
  · intro j hj
    have hold : j ∈ s.vifs.inUse := by
      rcases mem_inUse_update.mp hj with ⟨-, hcon⟩ | ⟨-, hold⟩
      · exact absurd rfl hcon
      · exact hold
    exact hall j (h.beyond j hold) hj
  · intro rt hrt
    refine mem_inUse_update.mpr (.inr ⟨fun hcon => hkeep rt hrt ?_, h.parents rt hrt⟩)
    exact UInt16.toNat_inj.mp hcon

theorem Mrouter.Inv.vif (h : s.Inv) {op : VifOp} (hkeep : KeepsParents c s (.vif op)) :
    Mrouter.Inv { s with vifs := vifStep s.vifs op } := by
  have hsized := vifStep_sized h.sized op
  cases op with
  | addVif vifcp ifa => exact h.addVif hkeep
  | delVif vifi => exact h.delVif hkeep
  | addLgrp vifi gaddr mem =>
      rw [vifStep] at hsized ⊢
      rcases addLgrp_cases h.sized vifi gaddr mem with heq | ⟨v, hgrown, heq⟩
      · rw [heq]
        exact h
      · rw [heq] at hsized ⊢
        exact h.of_inUse hsized rfl (inUse_set hgrown.lclAddr)
  | delLgrp vifi gaddr =>
      rw [vifStep] at hsized ⊢
      rcases delLgrp_cases vifi gaddr s.vifs with ⟨-, heq⟩ | ⟨-, heq⟩
      · rw [heq]
        exact h
      · rw [heq] at hsized ⊢
        refine h.of_inUse hsized rfl (inUse_set ?_)
        rw [VifEntry.delGroup]
        dsimp only
        split
        · rfl
        · rfl
  | member vifi gaddr =>
      refine h.of_inUse hsized rfl (inUse_set ?_)
      rw [grplstMember]
      split
      · rfl
      · rfl

/-- A change in the routes that a lookup finds nothing new in. -/
theorem Mrouter.Inv.of_found (h : s.Inv) {t : MrtTable}
    (hfound : ∀ rt, t.Found rt → (t.mrt rt).parent.toNat ∈ s.vifs.inUse) :
    Mrouter.Inv { s with mrt := t } := ⟨h.sized, h.last, h.beyond, hfound⟩

theorem Mrouter.Inv.addMrt (h : s.Inv) {mrtcp : Mrt} {block : Option Nat} {e : Option MrtErrno}
    {t : MrtTable} (hkeep : KeepsParents c s (.mrt (.add mrtcp block)))
    (hadd : addMrt c mrtcp block s.mrt = some (e, t)) : Mrouter.Inv { s with mrt := t } := by
  rw [Netinet.addMrt] at hadd
  cases hfind : mrtfind c mrtcp.origin s.mrt with
  | none =>
      rw [hfind] at hadd
      cases hadd
  | some found =>
      obtain ⟨rt, u⟩ := found
      obtain ⟨hmrt, hlive, hfound, -⟩ := mrtfind_cases hfind
      rw [hfind] at hadd
      have hold : ∀ i, u.Found i → (u.mrt i).parent.toNat ∈ s.vifs.inUse := by
        intro i hi
        rw [hmrt]
        exact h.parents i (hfound i hi)
      cases rt with
      | some rt =>
          cases hadd
          have hparent := hkeep (.inl ⟨rt, u, hfind⟩)
          refine h.of_found ?_
          intro i hi
          rcases eq_or_ne i rt with rfl | hne
          · simpa [Mrt.update] using hparent
          · simpa [hne] using hold i hi
      | none =>
          dsimp only at hadd
          cases hblock : u.malloc block with
          | none =>
              rw [hblock] at hadd
              cases hadd
              exact h.of_found hold
          | some rt =>
              rw [hblock] at hadd
              dsimp only at hadd
              cases hhash : nethash c mrtcp.origin with
              | none =>
                  rw [hhash] at hadd
                  cases hadd
              | some hash =>
                  rw [hhash] at hadd
                  cases hadd
                  have hparent : mrtcp.parent.toNat ∈ s.vifs.inUse := by
                    refine hkeep (.inr ?_)
                    have hmalloc : s.mrt.malloc block = u.malloc block := by
                      rw [MrtTable.malloc, MrtTable.malloc, hlive]
                    rw [hmalloc, hblock]
                    exact Option.some_ne_none rt
                  refine h.of_found ?_
                  intro i hi
                  rcases eq_or_ne i rt with rfl | hne
                  · simpa using hparent
                  · have hi' : u.Found i := by
                      rcases hi with hcached | ⟨b, hb⟩
                      · exact .inl hcached
                      · refine .inr ⟨b, ?_⟩
                        dsimp only at hb
                        rw [chainInsert] at hb
                        rcases eq_or_ne b hash with rfl | hbne
                        · rw [Function.update_self] at hb
                          exact (List.mem_cons.mp hb).resolve_left hne
                        · rwa [Function.update_of_ne hbne] at hb
                    simpa [hne] using hold i hi'

theorem Mrouter.Inv.delMrt (h : s.Inv) {origin : UInt32} {e : Option MrtErrno} {t : MrtTable}
    (hdel : delMrt c origin s.mrt = some (e, t)) : Mrouter.Inv { s with mrt := t } := by
  rw [Netinet.delMrt] at hdel
  split at hdel
  · cases hdel
  · next hash _ =>
      split at hdel
      · cases hdel
        exact h
      · next rt _ =>
          cases hdel
          refine h.of_found fun i hi => h.parents i ?_
          rcases hi with hcached | ⟨b, hb⟩
          · dsimp only at hcached
            split at hcached
            · cases hcached
            · exact .inl hcached
          · refine .inr ⟨b, ?_⟩
            dsimp only at hb
            rcases eq_or_ne b hash with rfl | hbne
            · rw [Function.update_self] at hb
              exact List.mem_of_mem_erase hb
            · rwa [Function.update_of_ne hbne] at hb

/-- A request that returns keeps the invariant. -/
theorem mrouterStep_inv (h : s.Inv) {mrthashsiz : Nat} {op : MrouterOp} (hkeep : KeepsParents c s op)
    {t : Mrouter} (hstep : mrouterStep c mrthashsiz (some s) op = some t) : t.Inv := by
  cases op with
  | vif op =>
      cases hstep
      exact h.vif hkeep
  | mrt op =>
      obtain ⟨mrt, hcall, rfl⟩ := Option.map_eq_some_iff.mp hstep
      cases op with
      | find origin =>
          obtain ⟨⟨rt, u⟩, hfind, rfl⟩ := Option.map_eq_some_iff.mp hcall
          obtain ⟨hmrt, -, hfound, -⟩ := mrtfind_cases hfind
          refine h.of_found ?_
          intro i hi
          rw [hmrt]
          exact h.parents i (hfound i hi)
      | add mrtcp block =>
          obtain ⟨⟨e, u⟩, hadd, rfl⟩ := Option.map_eq_some_iff.mp hcall
          exact h.addMrt hkeep hadd
      | del origin =>
          obtain ⟨⟨e, u⟩, hdel, rfl⟩ := Option.map_eq_some_iff.mp hcall
          exact h.delMrt hdel
  | done =>
      cases hstep
      refine ⟨fun _ => VifEntry.zero_sized, .inl rfl, fun i hi => absurd rfl hi, ?_⟩
      rintro rt (hcached | ⟨b, hb⟩)
      · cases hcached
      · exact absurd hb List.not_mem_nil

end

theorem Mrouter.start_inv : Mrouter.start.Inv := by
  refine ⟨fun _ => VifEntry.zero_sized, .inl rfl, fun i hi => absurd rfl hi, ?_⟩
  rintro rt (hcached | ⟨b, hb⟩)
  · cases hcached
  · exact absurd hb List.not_mem_nil

/-- Over any run of requests that keeps the parents of the routes in use, the mark is one above the
last interface in use, the lists fit their blocks, and every route that `ip_mforward` finds leads it
to an interface in use. -/
theorem vif_table_sound (c : MrtConf) (mrthashsiz : Nat) {ops : List MrouterOp}
    (h : Guarded (mrouterStep c mrthashsiz) (fun s op => ∀ u, s = some u → KeepsParents c u op)
      (some .start) ops) :
    Always (mrouterStep c mrthashsiz) (fun s => ∀ u, s = some u → u.Sound c) (some .start) ops := by
  have hinv := always_of_guarded (fun s : Option Mrouter => ∀ u, s = some u → u.Inv)
    (fun u hu => by cases hu; exact Mrouter.start_inv) (fun s op hs hop u hu => ?_) h
  · exact fun pre hpre u hu => (hinv pre hpre u hu).sound c
  · cases s with
    | none => cases hu
    | some s => exact mrouterStep_inv (hs s rfl) (hop s rfl) hu

/-- A route over the interface `vif0`. -/
def mrt0 : MrouterOp := .mrt (.add ⟨0x0a000000, 0xff000000, 0, 0, 0⟩ (some 0))

theorem vif_table_sound_route :
    Always (mrouterStep classful 64) (fun s => ∀ u, s = some u → u.Sound classful) (some .start)
      [.vif vif0, mrt0] := by
  refine vif_table_sound classful 64 (guarded_cons ?_ (guarded_cons ?_ guarded_nil))
  · intro u hu _ hzero
    cases hu
    exact absurd hzero (by decide)
  · intro u hu _
    cases hu
    show ((vifStep VifTable.start vif0).viftable 0).lclAddr ≠ 0
    decide

/-- A route whose parent was never added, and one whose parent is deleted: `ip_mforward` takes the
index as it is. -/
theorem vif_table_unsound :
    ¬ Always (mrouterStep classful 64) (fun s => ∀ u, s = some u → u.Sound classful) (some .start)
        [.mrt (.add ⟨0x0a000000, 0xff000000, 1000, 0, 0⟩ (some 0))] ∧
      ¬ Always (mrouterStep classful 64) (fun s => ∀ u, s = some u → u.Sound classful) (some .start)
        [.vif vif0, mrt0, .vif (.delVif 0)] := by
  constructor
  · intro h
    have hsound := h _ (List.prefix_refl _) _ rfl
    have hlt := (hsound.parents 0x0a000001 0 _ rfl).1
    revert hlt
    decide
  · intro h
    have hsound := h _ (List.prefix_refl _) _ rfl
    have hlt := (hsound.parents 0x0a000001 0 _ rfl).1
    revert hlt
    decide

end VxWorks.Netinet
