import VxWorks.Netinet.InPcbTable

/-!
# Ports that nobody asked for (in_pcb.c)

A socket that is bound without a port gets the next free one of the ephemeral
ports. The loop that looks for it goes round them until one is free, and keeps no
count of the ports it has seen: where all are taken it goes round for ever, and
the call, which is made with the network locked, does not return.
-/

namespace VxWorks.Netinet

open VxWorks.Lib

/-! ## Going round -/

/-- From `IPPORT_RESERVED` to `IPPORT_USERRESERVED`. -/
def Ephemeral (p : UInt16) : Prop := ipportReserved ≤ p ∧ p ≤ ipportUserreserved

theorem ephemeral_iff {p : UInt16} : Ephemeral p ↔ 1024 ≤ p.toNat ∧ p.toNat ≤ 5000 := Iff.rfl

theorem nextPort_ephemeral (p : UInt16) : Ephemeral (nextPort p) := by
  rw [nextPort]
  split
  · exact ⟨by decide, by decide⟩
  · next h =>
      rw [not_or] at h
      exact ⟨UInt16.not_lt.mp h.1, UInt16.not_lt.mp h.2⟩

theorem toNat_nextPort {p : UInt16} (h : Ephemeral p) :
    (nextPort p).toNat = if p.toNat = 5000 then 1024 else p.toNat + 1 := by
  obtain ⟨hlo, hhi⟩ := ephemeral_iff.mp h
  have hsucc : (p + 1).toNat = p.toNat + 1 := by
    rw [UInt16.toNat_add]
    show (p.toNat + 1) % 65536 = _
    omega
  by_cases hlast : p.toNat = 5000
  · obtain rfl : p = 5000 := UInt16.toNat_inj.mp hlast
    rfl
  · have hin : ¬ (p + 1 < ipportReserved ∨ p + 1 > ipportUserreserved) := by
      rintro (hlow | hhigh)
      · have hlow : (p + 1).toNat < 1024 := hlow
        omega
      · have hhigh : 5000 < (p + 1).toNat := hhigh
        omega
    rw [nextPort, if_neg hin, if_neg hlast, hsucc]

/-- The `k`th port from an ephemeral one on. -/
theorem toNat_nextPort_iterate {p : UInt16} (h : Ephemeral p) (k : Nat) :
    Ephemeral (nextPort^[k] p) ∧
      (nextPort^[k] p).toNat = 1024 + (p.toNat - 1024 + k) % portRound := by
  obtain ⟨hlo, hhi⟩ := ephemeral_iff.mp h
  rw [portRound]
  induction k with
  | zero =>
      refine ⟨h, ?_⟩
      rw [Function.iterate_zero_apply]
      omega
  | succ k ih =>
      obtain ⟨hp, hk⟩ := ih
      rw [Function.iterate_succ_apply']
      refine ⟨nextPort_ephemeral _, ?_⟩
      rw [toNat_nextPort hp, hk]
      split
      · omega
      · omega

/-- A round comes by every one of them. -/
theorem nextPort_covers (lastport : UInt16) {p : UInt16} (h : Ephemeral p) :
    ∃ k < portRound, nextPort^[k + 1] lastport = p := by
  have hfirst := nextPort_ephemeral lastport
  obtain ⟨hlo, hhi⟩ := ephemeral_iff.mp h
  obtain ⟨hlo', hhi'⟩ := ephemeral_iff.mp hfirst
  refine ⟨(p.toNat + portRound - (nextPort lastport).toNat) % portRound, Nat.mod_lt _ (by decide), ?_⟩
  rw [Function.iterate_succ_apply]
  refine UInt16.toNat_inj.mp ((toNat_nextPort_iterate hfirst _).2.trans ?_)
  rw [portRound]
  omega

section

variable {taken : UInt16 → Bool} {lastport p : UInt16}

/-- With all of them taken no number of rounds is enough. -/
theorem pickPort_taken (h : ∀ p, Ephemeral p → taken p = true) (fuel : Nat) (lastport : UInt16) :
    pickPort taken fuel lastport = none := by
  induction fuel generalizing lastport with
  | zero => rfl
  | succ fuel ih => rw [pickPort, if_pos (h _ (nextPort_ephemeral lastport)), ih]

/-- A port that is free is found after as many steps as it is away, or another before it. -/
theorem pickPort_of_free {fuel k : Nat} (hk : k < fuel)
    (h : taken (nextPort^[k + 1] lastport) = false) : pickPort taken fuel lastport ≠ none := by
  induction fuel generalizing lastport k with
  | zero => exact absurd hk (Nat.not_lt_zero k)
  | succ fuel ih =>
      rw [pickPort]
      split
      · next htaken =>
          cases k with
          | zero =>
              rw [Nat.zero_add, Function.iterate_one, htaken] at h
              cases h
          | succ k => exact ih (Nat.lt_of_succ_lt_succ hk) h
      · exact Option.some_ne_none _

theorem pickPort_ephemeral {fuel : Nat} (h : pickPort taken fuel lastport = some p) :
    Ephemeral p ∧ taken p = false := by
  obtain ⟨n, rfl, hfree, -⟩ := pickPort_firstFree h
  rw [Function.iterate_succ_apply'] at hfree ⊢
  exact ⟨nextPort_ephemeral _, hfree⟩

end

/-! ## Binding -/

variable {s s' : InpcbInfo} {i : Nat} {nam : Option SockaddrIn} {net : IfNet}

/-- A block with the local address to be and the port is there for `in_pcblookup` to find, as
`in_pcbbind` has it look. -/
def PortTaken (s : InpcbInfo) (i : Nat) (nam : Option SockaddrIn) (p : UInt16) : Prop :=
  inPcblookup s inaddrAny 0 (boundAddr (s.pcb i) nam) p (bindWild (s.pcb i).socket) ≠ none

/-- `in_pcbbind` is to return, with an ephemeral port that was free or with an error, and with an
error where none is free. -/
def BindsEphemeral (net : IfNet) (s : InpcbInfo) (i : Nat) (nam : Option SockaddrIn) : Prop :=
  ∃ err s', inPcbbind net s i nam = some (err, s') ∧
    (err = none → Ephemeral (s'.pcb i).lport ∧ ¬ PortTaken s i nam (s'.pcb i).lport) ∧
    ((∀ p, Ephemeral p → PortTaken s i nam p) → err ≠ none)

/-- The address is one that can be bound. -/
def Bindable (net : IfNet) (sin : SockaddrIn) : Prop :=
  sin.mLen = 16 ∧
    (inMulticast sin.addr = true ∨ sin.addr = inaddrAny ∨ net.ifaIfwithaddr sin.addr = true)

/-- Nothing is wrong with the call: an interface has an address, the block is not bound yet, and the
address asked for can be bound. -/
structure Admitted (net : IfNet) (s : InpcbInfo) (i : Nat) (nam : Option SockaddrIn) : Prop where
  ifaddr : net.inIfaddr ≠ none
  lport : (s.pcb i).lport = 0
  laddr : (s.pcb i).laddr = inaddrAny
  addr : ∀ sin ∈ nam, Bindable net sin

/-- The block's own address is no matter for the port: the block has none. -/
theorem inPcblookup_set_laddr (h : (s.pcb i).lport = 0) {p : UInt16} (hp : Ephemeral p)
    (addr laddr : UInt32) (wild : Bool) :
    inPcblookup (s.set i ({ · with laddr := addr })) inaddrAny 0 laddr p wild =
      inPcblookup s inaddrAny 0 laddr p wild := by
  have hne : (0 : UInt16) ≠ p := by
    rintro rfl
    exact absurd hp.1 (by decide)
  have hscore : (fun j => wildcard ((s.set i ({ · with laddr := addr })).pcb j) inaddrAny 0 laddr p) =
      fun j => wildcard (s.pcb j) inaddrAny 0 laddr p := by
    funext j
    rcases eq_or_ne j i with rfl | hj
    · rw [set_pcb_self, wildcard, wildcard]
      dsimp only
      rw [h, if_pos hne, if_pos hne]
    · rw [set_pcb_of_ne hj]
  rw [inPcblookup, inPcblookup, hscore]
  rfl

/-- What is left of the call when nothing is wrong with it: the loop, over ports that are taken. -/
theorem inPcbbind_admitted (h : Admitted net s i nam) (hport : ∀ sin ∈ nam, sin.port = 0) :
    ∃ t, inPcbbind net s i nam = bindEphemeral t i (bindWild (s.pcb i).socket) ∧
      ∀ p, Ephemeral p →
        ((inPcblookup t inaddrAny 0 (t.pcb i).laddr p (bindWild (s.pcb i).socket)).isSome = true ↔
          PortTaken s i nam p) := by
  have hunbound : ¬ ((s.pcb i).lport ≠ 0 ∨ (s.pcb i).laddr ≠ inaddrAny) := by
    rintro (hlport | hladdr)
    · exact hlport h.lport
    · exact hladdr h.laddr
  have hnone : net.inIfaddr.isNone = false := by
    rw [Option.isNone_eq_false_iff, Option.isSome_iff_ne_none]
    exact h.ifaddr
  unfold inPcbbind
  dsimp only
  rw [hnone, if_neg Bool.false_ne_true, if_neg hunbound]
  cases nam with
  | none =>
      refine ⟨s, rfl, ?_⟩
      intro p _
      rw [Option.isSome_iff_ne_none]
      rfl
  | some sin =>
      obtain ⟨hlen, haddr⟩ := h.addr sin rfl
      have hours : ¬ (¬ inMulticast sin.addr = true ∧ sin.addr ≠ inaddrAny ∧
          ¬ net.ifaIfwithaddr sin.addr = true) := by
        tauto
      dsimp only
      rw [if_neg (not_not.mpr hlen), if_neg hours, if_pos (hport sin rfl)]
      refine ⟨_, rfl, ?_⟩
      intro p hp
      rw [inPcblookup_set_laddr h.lport hp, set_pcb_self, Option.isSome_iff_ne_none]
      rfl

/-- A call that something is wrong with is refused. -/
theorem inPcbbind_refused (h : ¬ Admitted net s i nam) :
    ∃ e, inPcbbind net s i nam = some (some e, s) := by
  unfold inPcbbind
  dsimp only
  by_cases hnone : net.inIfaddr.isNone = true
  · exact ⟨_, if_pos hnone⟩
  rw [if_neg hnone]
  by_cases hbound : (s.pcb i).lport ≠ 0 ∨ (s.pcb i).laddr ≠ inaddrAny
  · exact ⟨_, if_pos hbound⟩
  rw [if_neg hbound]
  rw [not_or, not_not, not_not] at hbound
  have hifaddr : net.inIfaddr ≠ none := fun hcon => hnone (by rw [hcon]; rfl)
  cases nam with
  | none => exact absurd ⟨hifaddr, hbound.1, hbound.2, fun _ hsin => by cases hsin⟩ h
  | some sin =>
      dsimp only
      by_cases hlen : sin.mLen ≠ 16
      · exact ⟨_, if_pos hlen⟩
      rw [if_neg hlen]
      by_cases haddr : ¬ inMulticast sin.addr = true ∧ sin.addr ≠ inaddrAny ∧
          ¬ net.ifaIfwithaddr sin.addr = true
      · exact ⟨_, if_pos haddr⟩
      · refine absurd ⟨hifaddr, hbound.1, hbound.2, ?_⟩ h
        intro sin' hsin
        cases hsin
        exact ⟨not_not.mp hlen, by tauto⟩

/-- A socket that is bound without a port gets an ephemeral one that was free, or an error, exactly
when the call is refused at once or one of the ephemeral ports is free; when all are taken the call
does not return. -/
theorem in_pcbbind_ephemeral_iff (net : IfNet) (s : InpcbInfo) (i : Nat) (nam : Option SockaddrIn)
    (hport : ∀ sin ∈ nam, sin.port = 0) :
    BindsEphemeral net s i nam ↔
      ¬ Admitted net s i nam ∨ ∃ p, Ephemeral p ∧ ¬ PortTaken s i nam p := by
  by_cases hadm : Admitted net s i nam
  · rw [or_iff_right (not_not.mpr hadm)]
    obtain ⟨t, hbind, htaken⟩ := inPcbbind_admitted hadm hport
    constructor
    · rintro ⟨err, s', hreturns, -, -⟩
      rw [hbind, bindEphemeral] at hreturns
      obtain ⟨p, hpick, -⟩ := Option.map_eq_some_iff.mp hreturns
      obtain ⟨hp, hfree⟩ := pickPort_ephemeral hpick
      refine ⟨p, hp, ?_⟩
      intro hcon
      rw [(htaken p hp).mpr hcon] at hfree
      cases hfree
    · intro ⟨p, hp, hfree⟩
      obtain ⟨k, hk, hat⟩ := nextPort_covers t.lastport hp
      have hpicks : pickPort (fun p =>
          (inPcblookup t inaddrAny 0 (t.pcb i).laddr p (bindWild (s.pcb i).socket)).isSome)
          portRound t.lastport ≠ none := by
        refine pickPort_of_free hk ?_
        rw [hat, Bool.eq_false_iff]
        exact fun hcon => hfree ((htaken p hp).mp hcon)
      obtain ⟨q, hq⟩ := Option.ne_none_iff_exists'.mp hpicks
      obtain ⟨hqrange, hqfree⟩ := pickPort_ephemeral hq
      have hqfree : ¬ PortTaken s i nam q := by
        intro hcon
        rw [(htaken q hqrange).mpr hcon] at hqfree
        cases hqfree
      refine ⟨none, _, by rw [hbind, bindEphemeral, hq]; rfl, fun _ => ?_, fun hall _ => ?_⟩
      · rw [rehash_pcb, set_pcb_self]
        exact ⟨hqrange, hqfree⟩
      · exact hqfree (hall q hqrange)
  · refine iff_of_true ?_ (.inl hadm)
    obtain ⟨e, heq⟩ := inPcbbind_refused hadm
    exact ⟨some e, s, heq, fun hcon => (Option.some_ne_none e hcon).elim,
      fun _ => Option.some_ne_none e⟩

/-! ## All ports taken -/

/-- A socket for datagrams. -/
def datagram : Socket := ⟨0, false, false⟩

/-- The first `n` ephemeral ports are bound, each by a socket that asks for it. -/
def takePorts : Nat → List PcbCall
  | 0 => []
  | n + 1 => takePorts n ++
      [.alloc datagram (some n),
        .bind oneIf n (some ⟨16, afInet, UInt16.ofNat (1024 + n), inaddrAny⟩)]

/-- What the table holds then. -/
structure PortsHeld (s : InpcbInfo) (n : Nat) : Prop where
  list : ∀ j, j ∈ s.list ↔ j < n
  live : ∀ j, s.live j = true ↔ j < n
  lport : ∀ j < n, (s.pcb j).lport = UInt16.ofNat (1024 + j)

/-- Nothing has the port. -/
theorem inPcblookup_none {p : UInt16} (h : ∀ j ∈ s.list, (s.pcb j).lport ≠ p) (faddr : UInt32)
    (fport : UInt16) (laddr : UInt32) (wild : Bool) :
    inPcblookup s faddr fport laddr p wild = none := by
  rw [inPcblookup]
  generalize s.list = l at h
  induction l with
  | nil => rfl
  | cons j l ih =>
      have hscore : wildcard (s.pcb j) faddr fport laddr p = none := by
        rw [wildcard, if_pos (h j List.mem_cons_self)]
      rw [inPcblookupLoop, hscore]
      exact ih fun k hk => h k (List.mem_cons_of_mem j hk)

/-- A port that is asked for and that nothing has. -/
theorem inPcbbind_explicit {sin : SockaddrIn} (h : Admitted net s i (some sin))
    (hport : sin.port ≠ 0) (hfree : ∀ j ∈ s.list, (s.pcb j).lport ≠ sin.port) :
    inPcbbind net s i (some sin) =
      some (none, inPcbrehash (s.set i ({ · with laddr := sin.addr, lport := sin.port })) i) := by
  have hunbound : ¬ ((s.pcb i).lport ≠ 0 ∨ (s.pcb i).laddr ≠ inaddrAny) := by
    rintro (hlport | hladdr)
    · exact hlport h.lport
    · exact hladdr h.laddr
  have hnone : ¬ net.inIfaddr.isNone = true := by
    rw [Option.isNone_iff_eq_none]
    exact h.ifaddr
  obtain ⟨hlen, haddr⟩ := h.addr sin rfl
  have hours : ¬ (¬ inMulticast sin.addr = true ∧ sin.addr ≠ inaddrAny ∧
      ¬ net.ifaIfwithaddr sin.addr = true) := by
    tauto
  unfold inPcbbind
  dsimp only
  rw [if_neg hnone, if_neg hunbound, if_neg (not_not.mpr hlen), if_neg hours, if_neg hport,
    inPcblookup_none hfree, Option.any_none, if_neg Bool.false_ne_true]

theorem takePorts_held (n : Nat) (hn : n ≤ portRound) :
    ∃ s, run pcbStep (some (pcbInit 127)) (takePorts n) = some s ∧ PortsHeld s n := by
  induction n with
  | zero =>
      refine ⟨pcbInit 127, rfl, ?_, ?_, fun j hj => absurd hj (Nat.not_lt_zero j)⟩
      · intro j
        exact iff_of_false List.not_mem_nil (Nat.not_lt_zero j)
      · intro j
        exact iff_of_false Bool.false_ne_true (Nat.not_lt_zero j)
  | succ n ih =>
      obtain ⟨s, hs, hheld⟩ := ih (Nat.le_of_succ_le hn)
      rw [portRound] at hn
      have hfree : s.live n = false := by
        rw [Bool.eq_false_iff]
        exact fun hcon => absurd ((hheld.live n).mp hcon) (Nat.lt_irrefl n)
      have hport : ∀ j ≤ n, (UInt16.ofNat (1024 + j)).toNat = 1024 + j := by
        intro j hj
        rw [UInt16.toNat_ofNat']
        omega
      generalize ht : (inPcballoc s datagram (some n)).2 = t
      have hself : t.pcb n = ⟨0, 0, 0, 0, datagram⟩ := by
        rw [← ht]
        exact Function.update_self ..
      have hother : ∀ j < n, t.pcb j = s.pcb j := by
        intro j hj
        rw [← ht]
        exact Function.update_of_ne (Nat.ne_of_lt hj) ..
      have hlist : ∀ j, j ∈ t.list ↔ j < n + 1 := by
        intro j
        rw [← ht]
        show j ∈ n :: s.list ↔ _
        rw [List.mem_cons, hheld.list]
        omega
      have hlive : ∀ j, t.live j = true ↔ j < n + 1 := by
        intro j
        rw [← ht]
        show Function.update s.live n true j = true ↔ _
        rcases eq_or_ne j n with rfl | hne
        · simp
        · rw [Function.update_of_ne hne, hheld.live]
          omega
      have hadm : Admitted oneIf t n (some ⟨16, afInet, UInt16.ofNat (1024 + n), inaddrAny⟩) := by
        refine ⟨by decide, by rw [hself], by rw [hself]; rfl, fun sin hsin => ?_⟩
        cases hsin
        exact ⟨rfl, .inr (.inl rfl)⟩
      have hne : (UInt16.ofNat (1024 + n) : UInt16) ≠ 0 := by
        intro hcon
        have hzero := congrArg UInt16.toNat hcon
        rw [hport n (Nat.le_refl n)] at hzero
        have hlow : 1024 + n = 0 := hzero
        omega
      have hapart : ∀ j ∈ t.list, (t.pcb j).lport ≠ UInt16.ofNat (1024 + n) := by
        intro j hj hcon
        have hlt := (hlist j).mp hj
        rcases Nat.lt_succ_iff_lt_or_eq.mp hlt with hlt | rfl
        · rw [hother j hlt, hheld.lport j hlt] at hcon
          have heq := congrArg UInt16.toNat hcon
          rw [hport j (Nat.le_of_lt hlt), hport n (Nat.le_refl n)] at heq
          omega
        · rw [hself] at hcon
          exact hne hcon.symm
      refine ⟨inPcbrehash (t.set n ({ · with
        laddr := inaddrAny, lport := UInt16.ofNat (1024 + n) })) n, ?_, hlist, hlive, ?_⟩
      · rw [takePorts, run_append, hs]
        show pcbStep (pcbStep (some s) (.alloc datagram (some n))) _ = _
        have halloc : pcbStep (some s) (.alloc datagram (some n)) = some t := by
          show (if s.live n = true then some s else some (inPcballoc s datagram (some n)).2) = some t
          rw [hfree, if_neg Bool.false_ne_true, ht]
        rw [halloc]
        show (if t.live n = true then (inPcbbind oneIf t n _).map (·.2) else some t) = _
        rw [if_pos ((hlive n).mpr (Nat.lt_succ_self n)), inPcbbind_explicit hadm hne hapart]
        rfl
      · intro j hj
        rw [rehash_pcb]
        rcases Nat.lt_succ_iff_lt_or_eq.mp hj with hlt | rfl
        · rw [set_pcb_of_ne (Nat.ne_of_lt hlt), hother j hlt, hheld.lport j hlt]
        · rw [set_pcb_self]

/-- One socket more. -/
def lastSocket : List PcbCall := takePorts portRound ++ [.alloc datagram (some portRound)]

/-- When as many sockets as there are ephemeral ports have them, the next one that is bound without
a port is bound for ever. -/
theorem in_pcbbind_no_port :
    ∃ s, run pcbStep (some (pcbInit 127)) lastSocket = some s ∧
      inPcbbind oneIf s portRound none = none ∧ ¬ BindsEphemeral oneIf s portRound none := by
  obtain ⟨s, hs, hheld⟩ := takePorts_held portRound (Nat.le_refl _)
  have hfree : s.live portRound = false := by
    rw [Bool.eq_false_iff]
    exact fun hcon => absurd ((hheld.live portRound).mp hcon) (Nat.lt_irrefl portRound)
  generalize ht : (inPcballoc s datagram (some portRound)).2 = t
  have hself : t.pcb portRound = ⟨0, 0, 0, 0, datagram⟩ := by
    rw [← ht]
    exact Function.update_self portRound (⟨0, 0, 0, 0, datagram⟩ : Inpcb) s.pcb
  have hother : ∀ j < portRound, t.pcb j = s.pcb j := by
    intro j hj
    rw [← ht]
    exact Function.update_of_ne (Nat.ne_of_lt hj) (⟨0, 0, 0, 0, datagram⟩ : Inpcb) s.pcb
  have hlist : ∀ j < portRound, j ∈ t.list := by
    intro j hj
    rw [← ht]
    exact List.mem_cons_of_mem _ ((hheld.list j).mpr hj)
  have hrun : run pcbStep (some (pcbInit 127)) lastSocket = some t := by
    rw [lastSocket, run_concat, hs]
    show (if s.live portRound = true then some s else
      some (inPcballoc s datagram (some portRound)).2) = some t
    rw [hfree, if_neg Bool.false_ne_true, ht]
  have hall : ∀ p, Ephemeral p →
      (inPcblookup t inaddrAny 0 (t.pcb portRound).laddr p true).isSome = true := by
    intro p hp
    obtain ⟨hlo, hhi⟩ := ephemeral_iff.mp hp
    rw [Option.isSome_iff_ne_none, hself]
    intro hcon
    have hlt : p.toNat - 1024 < portRound := by
      rw [portRound]
      omega
    refine inPcblookup_any hcon (p.toNat - 1024) (hlist _ hlt) ?_
    rw [hother _ hlt, hheld.lport _ hlt]
    refine UInt16.toNat_inj.mp ?_
    rw [UInt16.toNat_ofNat']
    omega
  have hbind : inPcbbind oneIf t portRound none = none := by
    have hunbound : ¬ ((t.pcb portRound).lport ≠ 0 ∨ (t.pcb portRound).laddr ≠ inaddrAny) := by
      rw [hself]
      decide
    have hwild : bindWild (t.pcb portRound).socket = true := by
      rw [hself]
      decide
    unfold inPcbbind
    dsimp only
    rw [if_neg (by decide), if_neg hunbound, bindEphemeral, hwild, pickPort_taken hall]
    rfl
  refine ⟨t, hrun, hbind, ?_⟩
  rintro ⟨err, s', hcon, -⟩
  rw [hbind] at hcon
  cases hcon

theorem in_pcbbind_ephemeral_first :
    BindsEphemeral oneIf (inPcballoc (pcbInit 127) datagram (some 0)).2 0 none :=
  (in_pcbbind_ephemeral_iff _ _ _ _ (fun _ h => absurd h (Option.not_mem_none _))).mpr
    (.inr ⟨1024, ⟨by decide, by decide⟩, by
      rw [PortTaken, not_not]
      decide⟩)

end VxWorks.Netinet
