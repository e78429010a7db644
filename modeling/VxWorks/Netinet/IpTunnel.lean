import Mathlib.Data.List.GetD
import VxWorks.Netinet.IpOptions

/-!
# Multicast tunnels (ip_mroute.c)

A tunnel carries a multicast datagram to another multicast router through hosts
that know nothing of multicasting. `tunnel_send` addresses a copy of it to the
far end of the tunnel and puts a loose source route in front of its options, with
the near end of the tunnel as a hop that was passed and the group as the one to
come. At the far end `ip_dooptions` brings up the group and records an address of
its own in its place; `ip_mforward` finds a source route of just this form and
cuts it out.

So the datagram comes out as it went in, one hop older, except for what
`ip_dooptions` does at the far end with the options the datagram had already: a
recorded route or a timestamp with room left gets an entry, as at every router on
a path. `Passes` says which options it leaves alone.
-/

namespace VxWorks.Netinet

open VxWorks.Lib

/-- An mbuf chain: the first mbuf with its length, and the octets of the others. -/
structure Chain where
  data : Buf
  mLen : Nat
  rest : List UInt8

def Chain.octets (m : Chain) : List UInt8 := m.data.take m.mLen ++ m.rest

/-- What sending and receiving through a tunnel reads of a `struct vif`. -/
structure Vif where
  lclAddr : UInt32
  rmtAddr : UInt32
deriving DecidableEq, Repr

/-- `TUNNEL_LEN`. -/
def tunnelLen : Nat := 12

/-- `ip_hl` with the version kept beside it. -/
def setIpHl (b : Buf) (hl : Nat) : Buf :=
  b.set8 0 (UInt8.ofNat ((b 0).toNat / 16 * 16 + hl % 16))

/-- `ip_ttl` where it stands in the header. -/
def ipTtlAt : Nat := 8

/-- The option of a tunnel as it is sent. -/
def tunnelOption (vif : Vif) (group : UInt32) (b : Buf) : Buf :=
  let b := b.set8 20 ipoptNop
  let b := b.set8 21 ipoptLsrr
  let b := b.set8 22 11
  let b := b.set8 23 8
  (b.set32 24 vif.lclAddr).set32 28 group

/-- `tunnel_send`: the datagram that is given to `ip_output`. There is none when the
header has no room for the option or when there are no mbufs. -/
def tunnelSend (vif : Vif) (mbufs : Bool) (m : Chain) : Option Chain :=
  if (60 - tunnelLen) / 4 < (m.data 0).toNat % 16 then none
  else if mbufs = false then none
  else
    let b := m.data.set8 ipTtlAt (m.data ipTtlAt - 1)
    let b := b.set32 ipDstAt vif.rmtAddr
    let b := setIpHl b ((m.data 0).toNat % 16 + tunnelLen / 4)
    let b := b.set16 ipLenAt (b.u16 ipLenAt + 12)
    some
      { data := tunnelOption vif (m.data.u32 ipDstAt) b
        mLen := 20 + tunnelLen
        rest := m.octets.drop 20 }

/-- The tunnel option is deleted from the first mbuf, and the two lengths corrected. -/
def tunnelDelete (m : Chain) : Chain :=
  let b : Buf := fun i =>
    if 20 ≤ i ∧ i < m.mLen - tunnelLen then m.data (i + tunnelLen) else m.data i
  let b := b.set16 ipLenAt (b.u16 ipLenAt - 12)
  { data := setIpHl b ((b 0).toNat % 16 - tunnelLen / 4)
    mLen := m.mLen - tunnelLen
    rest := m.rest }

/-- The beginning of `ip_mforward`: the datagram came in through a physical
interface, or with a tunnel option that is not well formed, or through the tunnel
from `src`. -/
inductive TunnelArrival where
  | phyint
  | badTunnel
  | tunnel (src : UInt32) (m : Chain)

def ipMforwardArrival (m : Chain) : TunnelArrival :=
  if (m.data 0).toNat % 16 < (20 + tunnelLen) / 4 ∨ m.data 21 ≠ ipoptLsrr then .phyint
  else if m.data 20 ≠ ipoptNop ∨ m.data 22 ≠ 11 ∨ m.data 23 ≠ 12 ∨ m.data.u32 24 = 0 then
    .badTunnel
  else .tunnel (m.data.u32 24) (tunnelDelete m)

/-! ## Options that are left alone -/

/-- `ip_dooptions` at `r` has nothing to enter in the option at `cp` of a datagram that
was addressed to `dst`, and finds nothing wrong with it. -/
def Passes (r : Router) (dst : UInt32) (b : Buf) (cp : Nat) : Prop :=
  let len := (b (cp + 1)).toNat
  let ptr := (b (cp + 2)).toNat
  let flg := (b (cp + 3)).toNat % 16
  if b cp = ipoptLsrr ∨ b cp = ipoptSsrr then False
  else if b cp = ipoptRr then ipoptMinoff ≤ ptr ∧ noRoom (ptr - 1) len = true
  else if b cp = ipoptTs then
    5 ≤ len ∧ 1 ≤ ptr ∧ ptr + 8 ≤ len ∧
      (flg = 1 ∧ r.ifaofIfpforaddr dst = none ∨
        flg = 3 ∧ r.ifaIfwithaddr (b.u32 (cp + ptr - 1)) = none)
  else True

/-- All the options in the `cnt` octets from `cp` on pass. -/
inductive AllPass (r : Router) (dst : UInt32) (b : Buf) : Nat → Nat → Prop
  | stop {cp cnt : Nat} : cnt = 0 ∨ b cp = ipoptEol → AllPass r dst b cp cnt
  | nop {cp cnt : Nat} : b cp = ipoptNop → AllPass r dst b (cp + 1) cnt →
      AllPass r dst b cp (cnt + 1)
  | opt {cp cnt len : Nat} : b cp ≠ ipoptNop → b cp ≠ ipoptEol → Passes r dst b cp →
      len = (b (cp + 1)).toNat → len ≠ 0 → 2 ≤ cnt + len →
      AllPass r dst b (cp + len) cnt → AllPass r dst b cp (cnt + len)

section

variable {r : Router} {dst : UInt32} {b b' : Buf} {cp cnt n : Nat}

theorem dooptionsLoop_stop {fuel : Nat} {forward : Bool} (h : cnt = 0 ∨ b cp = ipoptEol) :
    dooptionsLoop r dst fuel cp cnt forward b = .next forward b := by
  cases fuel with
  | zero => rfl
  | succ fuel => rw [dooptionsLoop, if_pos h]

theorem dooptionsLoop_nop {fuel : Nat} {forward : Bool} (h : b cp = ipoptNop) :
    dooptionsLoop r dst (fuel + 1) cp (cnt + 1) forward b =
      dooptionsLoop r dst fuel (cp + 1) cnt forward b := by
  rw [dooptionsLoop, if_neg (by rw [h]; simp [ipoptNop, ipoptEol])]
  simp only [h, if_true]
  rw [if_neg (by omega)]
  simp [optSwitch, h, ipoptNop, ipoptLsrr, ipoptSsrr, ipoptRr, ipoptTs]

theorem dooptionsLoop_opt {fuel len : Nat} {forward : Bool} (hnop : b cp ≠ ipoptNop)
    (heol : b cp ≠ ipoptEol) (hlen : len = (b (cp + 1)).toNat) (h0 : len ≠ 0) :
    dooptionsLoop r dst (fuel + 1) cp (cnt + len) forward b =
      match optSwitch r dst cp len forward b with
      | .bad type code => .bad type code
      | .next forward b => dooptionsLoop r dst fuel (cp + len) cnt forward b := by
  rw [dooptionsLoop, if_neg (by simp [heol]; omega)]
  simp only [hnop, if_false, ← hlen]
  have hcnt : cnt + len - len = cnt := Nat.add_sub_cancel cnt len
  have hfits : ¬ (len = 0 ∨ cnt + len < len) := by omega
  cases optSwitch r dst cp len forward b <;> simp only [hcnt, hfits, if_false]

/-- An option that passes is passed over, wherever it is moved to. -/
theorem optSwitch_passes {forward : Bool} {len : Nat} (hpass : Passes r dst b cp)
    (hlen : len = (b (cp + 1)).toNat) (hcnt : 2 ≤ cnt) (hle : len ≤ cnt)
    (hmoved : ∀ i, cp ≤ i → i < cp + cnt → b' (i + n) = b i) :
    optSwitch r dst (cp + n) len forward b' = .next forward b' := by
  have hat : ∀ k, k < cnt → b' (cp + n + k) = b (cp + k) := by
    intro k hk
    rw [← hmoved (cp + k) (by omega) (by omega)]
    congr 1
    omega
  have h0 : b' (cp + n) = b cp := hat 0 (by omega)
  have h1 : (b' (cp + n + 1)).toNat = len := by rw [hat 1 (by omega), hlen]
  simp only [Passes, ← hlen] at hpass
  rw [optSwitch]
  simp only [h0]
  split at hpass
  · exact hpass.elim
  · next hsrc =>
      rw [if_neg hsrc]
      split at hpass
      · next hrr =>
          obtain ⟨hmin, hroom⟩ := hpass
          have hlen4 : 4 ≤ len := by
            have hb := (b (cp + 2)).toNat_lt
            simp only [noRoom, decide_eq_true_eq] at hroom
            omega
          rw [if_pos hrr, optRecordRoute]
          simp only [hat 2 (by omega)]
          rw [if_neg (by omega), if_pos hroom]
      · next hrr =>
          rw [if_neg hrr]
          split at hpass
          · next hts =>
              obtain ⟨hlen5, hptr, hroom, hflg⟩ := hpass
              rw [if_pos hts, optTimestamp]
              simp only [h1, hat 2 (by omega), hat 3 (by omega)]
              rw [if_neg (by omega), if_neg (by omega)]
              have hsin : b'.u32 (cp + n + (b (cp + 2)).toNat - 1) =
                  b.u32 (cp + (b (cp + 2)).toNat - 1) := by
                have hi : ∀ k, k < 4 → b' (cp + n + (b (cp + 2)).toNat - 1 + k) =
                    b (cp + (b (cp + 2)).toNat - 1 + k) := by
                  intro k hk
                  rw [← hmoved (cp + (b (cp + 2)).toNat - 1 + k) (by omega) (by omega)]
                  congr 1
                  omega
                rw [Buf.u32, Buf.u32, hi 1 (by omega), hi 2 (by omega), hi 3 (by omega)]
                congr 1
                exact hi 0 (by omega)
              rcases hflg with ⟨hflg, hia⟩ | ⟨hflg, hia⟩
              · rw [if_neg (by omega), if_pos hflg, if_neg (by omega), hia]
              · rw [if_neg (by omega), if_neg (by omega), if_pos hflg, if_neg (by omega), hsin, hia]
          · next hts => rw [if_neg hts]

/-- Options that pass are passed over one by one. -/
theorem dooptionsLoop_passes {fuel : Nat} {forward : Bool} (h : AllPass r dst b cp cnt)
    (hfuel : cnt ≤ fuel) (hmoved : ∀ i, cp ≤ i → i < cp + cnt → b' (i + n) = b i) :
    dooptionsLoop r dst fuel (cp + n) cnt forward b' = .next forward b' := by
  induction h generalizing fuel with
  | @stop cp cnt hstop =>
      refine dooptionsLoop_stop ?_
      rcases Nat.eq_zero_or_pos cnt with h0 | hpos
      · exact .inl h0
      · exact .inr ((hmoved cp (by omega) (by omega)).trans (hstop.resolve_left (by omega)))
  | @nop cp cnt hnop _ ih =>
      obtain ⟨fuel, rfl⟩ : ∃ f, fuel = f + 1 := ⟨fuel - 1, by omega⟩
      rw [dooptionsLoop_nop ((hmoved cp (by omega) (by omega)).trans hnop)]
      have hnext := ih (by omega : cnt ≤ fuel) (fun i hi hlt => hmoved i (by omega) (by omega))
      rwa [Nat.add_right_comm] at hnext
  | @opt cp cnt len hnop heol hpass hlen h0 h2 _ ih =>
      obtain ⟨fuel, rfl⟩ : ∃ f, fuel = f + 1 := ⟨fuel - 1, by omega⟩
      have hcp := hmoved cp (by omega) (by omega)
      have hlen' : len = (b' (cp + n + 1)).toNat := by
        rw [hlen, ← hmoved (cp + 1) (by omega) (by omega)]
        congr 2
        omega
      rw [dooptionsLoop_opt (hcp ▸ hnop) (hcp ▸ heol) hlen' h0,
        optSwitch_passes hpass hlen h2 (by omega) hmoved]
      have hnext := ih (by omega : cnt ≤ fuel) (fun i hi hlt => hmoved i (by omega) (by omega))
      rwa [Nat.add_right_comm] at hnext

end

/-! ## Chains as octets -/

namespace Chain

/-- The octet at an offset, in whichever mbuf it is. -/
def octet (m : Chain) : Buf := fun i => if i < m.mLen then m.data i else m.rest.getD (i - m.mLen) 0

theorem length_octets (m : Chain) : m.octets.length = m.mLen + m.rest.length := by
  rw [octets, List.length_append, Buf.length_take]

theorem octets_getD (m : Chain) (i : Nat) : m.octets.getD i 0 = m.octet i := by
  unfold octets octet
  split
  · next h =>
      rw [List.getD_append _ _ _ _ (by rwa [Buf.length_take])]
      simp [Buf.take, h]
  · next h =>
      rw [List.getD_append_right _ _ _ _ (by rw [Buf.length_take]; omega), Buf.length_take]

theorem octet_lt {m : Chain} {i : Nat} (h : i < m.mLen) : m.octet i = m.data i := if_pos h

theorem octet_ge {m : Chain} {i : Nat} (h : m.mLen ≤ i) :
    m.octet i = m.rest.getD (i - m.mLen) 0 := if_neg (by omega)

theorem octets_ext {m m' : Chain} (hlen : m.octets.length = m'.octets.length)
    (h : ∀ i, m.octet i = m'.octet i) : m.octets = m'.octets := by
  refine List.ext_getElem hlen ?_
  intro i hi hi'
  have heq := h i
  rw [← octets_getD, ← octets_getD] at heq
  simpa [hi, hi'] using heq

/-- The same chain after a change of its first mbuf. -/
def withData (m : Chain) (b : Buf) : Chain := { m with data := b }

theorem octet_withData (m : Chain) (b : Buf) (i : Nat) (h : b i = m.data i) :
    (m.withData b).octet i = m.octet i := by
  simp only [octet, withData, h]

end Chain

/-! ## There and back -/

/-- The link delivers what was sent, in mbufs of the receiver's choice, and with the
checksum that went with it; `ipintr` has the header in the first of them. -/
structure Delivered (sent got : Chain) (sum : UInt16) : Prop where
  octets : got.octets = (sent.withData (sent.data.set16 10 sum)).octets
  header : 20 ≤ got.mLen
  pullup : ipHlen got.data ≤ got.mLen

/-- A datagram with its header in the first mbuf. -/
structure Headed (m : Chain) : Prop where
  min : 20 ≤ ipHlen m.data
  pullup : ipHlen m.data ≤ m.mLen

section

variable {vif : Vif} {m sent got : Chain} {sum : UInt16}

theorem tunnelSend_fits {mbufs : Bool} (h : tunnelSend vif mbufs m = some sent) :
    (m.data 0).toNat % 16 ≤ 12 ∧ mbufs = true := by
  rw [tunnelSend] at h
  split at h
  · cases h
  · next hfit =>
      split at h
      · cases h
      · next hbuf =>
          refine ⟨?_, by simpa using hbuf⟩
          simp only [tunnelLen] at hfit
          omega

/-- What is sent, field by field. -/
structure Tunnelled (vif : Vif) (m sent : Chain) : Prop where
  mLen : sent.mLen = 32
  rest : sent.rest = m.octets.drop 20
  vhl : sent.data 0 = UInt8.ofNat ((m.data 0).toNat + 3)
  len : sent.data.u16 2 = m.data.u16 2 + 12
  ttl : sent.data 8 = m.data 8 - 1
  other : ∀ i, i = 1 ∨ 4 ≤ i ∧ i < 8 ∨ 9 ≤ i ∧ i < 16 → sent.data i = m.data i
  dst : sent.data.u32 16 = vif.rmtAddr
  nop : sent.data 20 = ipoptNop
  lsrr : sent.data 21 = ipoptLsrr
  optlen : sent.data 22 = 11
  ptr : sent.data 23 = 8
  first : sent.data.u32 24 = vif.lclAddr
  second : sent.data.u32 28 = m.data.u32 16

theorem tunnelSend_tunnelled {mbufs : Bool} (h : tunnelSend vif mbufs m = some sent) :
    Tunnelled vif m sent := by
  obtain ⟨hfit, rfl⟩ := tunnelSend_fits h
  rw [tunnelSend] at h
  rw [if_neg (by simp only [tunnelLen]; omega), if_neg (by simp)] at h
  cases h
  constructor
  case mLen => rfl
  case rest => rfl
  case vhl =>
    simp only [tunnelOption, setIpHl, tunnelLen, ipLenAt, ipDstAt, ipTtlAt]
    rw [Buf.set32_of_ne _ (by omega), Buf.set32_of_ne _ (by omega), Buf.set8_of_ne _ (by omega),
      Buf.set8_of_ne _ (by omega), Buf.set8_of_ne _ (by omega), Buf.set8_of_ne _ (by omega),
      Buf.set16_of_ne _ (by omega), Buf.set8_same, Buf.set32_of_ne _ (by omega),
      Buf.set8_of_ne _ (by omega)]
    congr 1
    omega
  case len =>
    simp only [tunnelOption, setIpHl, ipLenAt, ipDstAt, ipTtlAt]
    rw [Buf.u16_set32_of_ne _ (by omega), Buf.u16_set32_of_ne _ (by omega),
      Buf.u16_set8_of_ne _ (by omega), Buf.u16_set8_of_ne _ (by omega),
      Buf.u16_set8_of_ne _ (by omega), Buf.u16_set8_of_ne _ (by omega), Buf.u16_set16_same,
      Buf.u16_set8_of_ne _ (by omega), Buf.u16_set32_of_ne _ (by omega),
      Buf.u16_set8_of_ne _ (by omega)]
  case other =>
    intro i hi
    simp only [tunnelOption, setIpHl, ipLenAt, ipDstAt, ipTtlAt]
    rw [Buf.set32_of_ne _ (by omega), Buf.set32_of_ne _ (by omega), Buf.set8_of_ne _ (by omega),
      Buf.set8_of_ne _ (by omega), Buf.set8_of_ne _ (by omega), Buf.set8_of_ne _ (by omega),
      Buf.set16_of_ne _ (by omega), Buf.set8_of_ne _ (by omega), Buf.set32_of_ne _ (by omega),
      Buf.set8_of_ne _ (by omega)]
  all_goals
    simp [tunnelOption, setIpHl, Buf.u32, Buf.u16, Buf.set8, Buf.set16, Buf.set32, ipLenAt,
      ipDstAt, ipTtlAt]

/-! What is delivered has the same fields in its first mbuf. -/

theorem Delivered.octet (hd : Delivered sent got sum) (i : Nat) :
    got.octet i = (sent.withData (sent.data.set16 10 sum)).octet i := by
  rw [← Chain.octets_getD, ← Chain.octets_getD, hd.octets]

theorem Delivered.length (hd : Delivered sent got sum) :
    got.mLen + got.rest.length = sent.mLen + sent.rest.length := by
  have hlen := congrArg List.length hd.octets
  rwa [Chain.length_octets, Chain.length_octets] at hlen

theorem Delivered.data (hd : Delivered sent got sum) (ht : Tunnelled vif m sent) {i : Nat}
    (hi : i < 32) (hgot : i < got.mLen) : got.data i = sent.data.set16 10 sum i := by
  rw [← Chain.octet_lt hgot, hd.octet, Chain.octet_lt (by rw [Chain.withData, ht.mLen]; omega)]
  rfl

/-- Of what is delivered, the options and the data that were there before. -/
theorem Delivered.behind (hd : Delivered sent got sum) (ht : Tunnelled vif m sent) {i : Nat}
    (hi : 20 ≤ i) : got.octet (i + 12) = m.octet i := by
  rw [hd.octet, Chain.octet, if_neg (by rw [Chain.withData, ht.mLen]; omega)]
  show sent.rest.getD (i + 12 - sent.mLen) 0 = m.octet i
  rw [ht.rest, ht.mLen, ← Chain.octets_getD, List.getD_eq_getElem?_getD, List.getElem?_drop,
    ← List.getD_eq_getElem?_getD]
  congr 1
  omega

theorem Delivered.hlen (hd : Delivered sent got sum) (ht : Tunnelled vif m sent)
    (hfit : (m.data 0).toNat % 16 ≤ 12) :
    (got.data 0).toNat = (m.data 0).toNat + 3 ∧ ipHlen got.data = ipHlen m.data + 12 := by
  have h0 : got.data 0 = UInt8.ofNat ((m.data 0).toNat + 3) := by
    rw [hd.data ht (by omega) (by have := hd.header; omega), Buf.set16_of_ne _ (by omega), ht.vhl]
  have hlt := (m.data 0).toNat_lt
  have hn : (got.data 0).toNat = (m.data 0).toNat + 3 := by
    rw [h0, UInt8.toNat_ofNat_of_lt' (by simp only [UInt8.size]; omega)]
  refine ⟨hn, ?_⟩
  simp only [ipHlen, hn]
  omega

/-- The option of the tunnel as the far end leaves it. -/
def tunnelRecorded (b : Buf) (group ia : UInt32) : Buf :=
  ((b.set32 ipDstAt group).set32 28 ia).set8 23 12

/-- The source route of a tunnel at its far end: the group comes up, and the address
of the interface is recorded. -/
theorem optSwitch_tunnel {r : Router} {b : Buf} {dst own ia : UInt32} (hlsrr : b 21 = ipoptLsrr)
    (hptr : b 23 = 8) (hown : r.ifaIfwithaddr (b.u32 ipDstAt) = some own)
    (hia : r.ipRtaddr (b.u32 28) = some ia) (hgroup : inMulticast (b.u32 28) = true) :
    optSwitch r dst 21 11 false b = .next false (tunnelRecorded b (b.u32 28) ia) := by
  have hset : ((b.set32 ipDstAt (b.u32 28)).set32 28 ia) 23 = 8 := by
    rw [Buf.set32_of_ne _ (by omega), Buf.set32_of_ne _ (by simp only [ipDstAt]; omega), hptr]
  have hroom : noRoom 7 11 = false := by decide
  rw [optSwitch]
  simp only [hlsrr, true_or, if_true, optSourceRoute, hptr]
  rw [if_neg (by decide), hown]
  simp only [UInt8.reduceToNat, Nat.reduceAdd, Nat.reduceSub, hroom, Bool.false_eq_true, if_false]
  rw [if_neg (by decide), hia, tunnelRecorded, hgroup]
  simp only [hset]
  rfl

/-- The header and the option of what is delivered. -/
theorem Delivered.field (hd : Delivered sent got sum) (ht : Tunnelled vif m sent)
    (hgot : 32 ≤ got.mLen) {i : Nat} (hi : i < 32) (hsum : i ≠ 10 ∧ i ≠ 11) :
    got.data i = sent.data i := by
  rw [hd.data ht hi (by omega), Buf.set16_of_ne _ hsum]

theorem Delivered.u32 (hd : Delivered sent got sum) (ht : Tunnelled vif m sent)
    (hgot : 32 ≤ got.mLen) {i : Nat} (hlo : 12 ≤ i) (hi : i + 4 ≤ 32) :
    got.data.u32 i = sent.data.u32 i :=
  Buf.u32_congr fun _ _ _ => hd.field ht hgot (by omega) (by omega)

theorem Delivered.long (hd : Delivered sent got sum) (ht : Tunnelled vif m sent) (hm : Headed m)
    (hfit : (m.data 0).toNat % 16 ≤ 12) : 32 ≤ got.mLen := by
  have hmin := hm.min
  have hpull := hd.pullup
  have hlen := (hd.hlen ht hfit).2
  omega

theorem ipDooptions_of_loop {r : Router} {b b' : Buf} {cnt : Nat} (hcnt : ipHlen b - 20 = cnt)
    (h : dooptionsLoop r (b.u32 ipDstAt) cnt 20 cnt false b = .next false b') :
    ipDooptions r b = .process b' := by
  rw [ipDooptions, hcnt, h]
  rfl

/-- The far end takes the tunnel's source route and passes over the other options. -/
theorem ipDooptions_tunnelled {r : Router} {own ia : UInt32} (hd : Delivered sent got sum)
    (ht : Tunnelled vif m sent) (hm : Headed m) (hfit : (m.data 0).toNat % 16 ≤ 12)
    (hown : r.ifaIfwithaddr vif.rmtAddr = some own) (hia : r.ipRtaddr (m.data.u32 ipDstAt) = some ia)
    (hgroup : inMulticast (m.data.u32 ipDstAt) = true)
    (hpass : AllPass r vif.rmtAddr m.data 20 (ipHlen m.data - 20)) :
    ipDooptions r got.data = .process (tunnelRecorded got.data (m.data.u32 ipDstAt) ia) := by
  have hlong := hd.long ht hm hfit
  have hmin := hm.min
  have hhlen := (hd.hlen ht hfit).2
  have hdst : got.data.u32 ipDstAt = vif.rmtAddr :=
    (hd.u32 ht hlong (by decide) (by decide)).trans ht.dst
  have hsecond : got.data.u32 28 = m.data.u32 ipDstAt :=
    (hd.u32 ht hlong (by omega) (by omega)).trans ht.second
  have hnop : got.data 20 = ipoptNop := (hd.field ht hlong (by omega) (by omega)).trans ht.nop
  have hlsrr : got.data 21 = ipoptLsrr := (hd.field ht hlong (by omega) (by omega)).trans ht.lsrr
  have hoptlen : got.data 22 = 11 := (hd.field ht hlong (by omega) (by omega)).trans ht.optlen
  have hptr : got.data 23 = 8 := (hd.field ht hlong (by omega) (by omega)).trans ht.ptr
  obtain ⟨n, hn⟩ : ∃ n, ipHlen m.data - 20 = n := ⟨_, rfl⟩
  have hcnt : ipHlen got.data - 20 = n + 11 + 1 := by omega
  have hmoved : ∀ i, 20 ≤ i → i < 20 + n →
      tunnelRecorded got.data (m.data.u32 ipDstAt) ia (i + 12) = m.data i := by
    intro i hi hlt
    rw [tunnelRecorded, Buf.set8_of_ne _ (by omega), Buf.set32_of_ne _ (by omega),
      Buf.set32_of_ne _ (by simp only [ipDstAt]; omega),
      ← Chain.octet_lt (by have := hd.pullup; omega), hd.behind ht hi,
      Chain.octet_lt (by have := hm.pullup; omega)]
  have hswitch : optSwitch r vif.rmtAddr 21 11 false got.data =
      .next false (tunnelRecorded got.data (m.data.u32 ipDstAt) ia) := by
    rw [← hsecond] at hia hgroup ⊢
    exact optSwitch_tunnel hlsrr hptr (hdst ▸ hown) hia hgroup
  have hrest : dooptionsLoop r vif.rmtAddr (n + 10) (20 + 12) n false
      (tunnelRecorded got.data (m.data.u32 ipDstAt) ia) =
        .next false (tunnelRecorded got.data (m.data.u32 ipDstAt) ia) :=
    dooptionsLoop_passes (hn ▸ hpass) (by omega) hmoved
  have hfirst : dooptionsLoop r vif.rmtAddr (n + 11 + 1) 20 (n + 11 + 1) false got.data =
      dooptionsLoop r vif.rmtAddr (n + 10 + 1) 21 (n + 11) false got.data :=
    dooptionsLoop_nop hnop
  have hloop : dooptionsLoop r vif.rmtAddr (n + 10 + 1) 21 (n + 11) false got.data =
      .next false (tunnelRecorded got.data (m.data.u32 ipDstAt) ia) := by
    have h11 : 11 = (got.data (21 + 1)).toNat := by
      show 11 = (got.data 22).toNat
      rw [hoptlen]
      rfl
    rw [dooptionsLoop_opt (by rw [hlsrr]; decide) (by rw [hlsrr]; decide) h11 (by omega), hswitch]
    exact hrest
  exact ipDooptions_of_loop hcnt (by rw [hdst]; exact hfirst.trans hloop)

/-- Behind the fixed header everything moves up. -/
theorem tunnelDelete_behind {m : Chain} (hm : 12 ≤ m.mLen) {i : Nat} (hi : 20 ≤ i) :
    (tunnelDelete m).octet i = m.octet (i + 12) := by
  have hlen : (tunnelDelete m).mLen = m.mLen - 12 := rfl
  rcases Nat.lt_or_ge i (m.mLen - 12) with hlt | hge
  · rw [Chain.octet_lt (by omega), Chain.octet_lt (by omega)]
    simp only [tunnelDelete, setIpHl, tunnelLen, ipLenAt]
    rw [Buf.set8_of_ne _ (by omega), Buf.set16_of_ne _ (by omega)]
    exact if_pos ⟨hi, hlt⟩
  · rw [Chain.octet_ge (by omega), Chain.octet_ge (by omega), hlen]
    show m.rest.getD (i - (m.mLen - 12)) 0 = m.rest.getD (i + 12 - m.mLen) 0
    congr 1
    omega

/-- In the fixed header the two lengths change and nothing else. -/
theorem tunnelDelete_header (m : Chain) {i : Nat} (hi : i < 20) :
    (tunnelDelete m).data i =
      if i = 0 then UInt8.ofNat ((m.data 0).toNat / 16 * 16 + ((m.data 0).toNat % 16 - 3) % 16)
      else (m.data.set16 2 (m.data.u16 2 - 12)) i := by
  simp only [tunnelDelete, setIpHl, tunnelLen, ipLenAt, Buf.set8, Buf.set16, Buf.u16]
  rcases eq_or_ne i 0 with rfl | h0
  · simp
  · rw [if_neg h0, if_neg h0]
    simp [show ¬ 20 ≤ i by omega]

/-- The buffer behind `ip_dooptions`: the group is back in `ip_dst`, the option has its
pointer and its second address changed, and nothing else is touched. -/
structure Recorded (vif : Vif) (m sent got : Chain) (sum : UInt16) (b : Buf) : Prop where
  kept : ∀ i, i < 16 ∨ 20 ≤ i ∧ i < 23 ∨ 24 ≤ i ∧ i < 28 ∨ 32 ≤ i → b i = got.data i
  field : ∀ i, i < 16 ∧ i ≠ 10 ∧ i ≠ 11 ∨ 20 ≤ i ∧ i < 23 ∨ 24 ≤ i ∧ i < 28 → b i = sent.data i
  sum : ∀ i, i = 10 ∨ i = 11 → b i = (sent.data.set16 10 sum) i
  vhl : (b 0).toNat = (m.data 0).toNat + 3
  ptr : b 23 = 12
  dst : b.u32 16 = m.data.u32 16

theorem Delivered.recorded (hd : Delivered sent got sum) (ht : Tunnelled vif m sent)
    (hm : Headed m) (hfit : (m.data 0).toNat % 16 ≤ 12) (ia : UInt32) :
    Recorded vif m sent got sum (tunnelRecorded got.data (m.data.u32 ipDstAt) ia) := by
  have hlong := hd.long ht hm hfit
  have hkept : ∀ i, i < 16 ∨ 20 ≤ i ∧ i < 23 ∨ 24 ≤ i ∧ i < 28 ∨ 32 ≤ i →
      tunnelRecorded got.data (m.data.u32 ipDstAt) ia i = got.data i := by
    intro i hi
    rw [tunnelRecorded, Buf.set8_of_ne _ (by omega), Buf.set32_of_ne _ (by omega),
      Buf.set32_of_ne _ (by simp only [ipDstAt]; omega)]
  refine ⟨hkept, ?_, ?_, ?_, ?_, ?_⟩
  · intro i hi
    rw [hkept i (by omega), hd.field ht hlong (by omega) (by omega)]
  · intro i hi
    rw [hkept i (by omega), hd.data ht (by omega) (by omega)]
  · rw [hkept 0 (by omega)]
    exact (hd.hlen ht hfit).1
  · rw [tunnelRecorded, Buf.set8_same]
  · rw [tunnelRecorded, Buf.u32_set8_of_ne _ (by omega), Buf.u32_set32_of_ne _ (by omega)]
    exact Buf.u32_set32_same _

/-- `ip_mforward` knows it for what came through the tunnel. -/
theorem Recorded.arrival {b : Buf} (h : Recorded vif m sent got sum b) (ht : Tunnelled vif m sent)
    (hm : Headed m) (hfit : (m.data 0).toNat % 16 ≤ 12) (hlcl : vif.lclAddr ≠ 0) :
    ipMforwardArrival (got.withData b) = .tunnel vif.lclAddr (tunnelDelete (got.withData b)) := by
  have hmin := hm.min
  have hvhl := h.vhl
  have hsrc : b.u32 24 = vif.lclAddr := by
    rw [← ht.first]
    exact Buf.u32_congr fun _ _ _ => h.field _ (by omega)
  have hhl : 8 ≤ (b 0).toNat % 16 := by
    simp only [ipHlen] at hmin
    omega
  have hopt : ¬ ((b 0).toNat % 16 < (20 + tunnelLen) / 4 ∨ b 21 ≠ ipoptLsrr) := by
    simp [tunnelLen, h.field 21 (by omega), ht.lsrr, hhl]
  have hwell : ¬ (b 20 ≠ ipoptNop ∨ b 22 ≠ 11 ∨ b 23 ≠ 12 ∨ b.u32 24 = 0) := by
    rw [h.field 20 (by omega), ht.nop, h.field 22 (by omega), ht.optlen, h.ptr, hsrc]
    simp [hlcl]
  have harrive : ipMforwardArrival (got.withData b) =
      .tunnel (b.u32 24) (tunnelDelete (got.withData b)) :=
    (if_neg hopt).trans (if_neg hwell)
  rw [harrive, hsrc]

/-- With the option cut out, the fixed header is the one that was sent. -/
theorem Recorded.header {b : Buf} (h : Recorded vif m sent got sum b) (ht : Tunnelled vif m sent)
    (hfit : (m.data 0).toNat % 16 ≤ 12) {i : Nat} (hi : i < 20) :
    (tunnelDelete (got.withData b)).data i =
      ((m.data.set8 ipTtlAt (m.data ipTtlAt - 1)).set16 10 sum) i := by
  have hvhl := h.vhl
  have hlen : b.u16 2 - 12 = m.data.u16 2 := by
    rw [Buf.u16_congr (h.field 2 (by omega)) (h.field 3 (by omega)), ht.len,
      UInt16.add_sub_cancel]
  rw [tunnelDelete_header _ hi]
  show (if i = 0 then UInt8.ofNat ((b 0).toNat / 16 * 16 + ((b 0).toNat % 16 - 3) % 16)
    else b.set16 2 (b.u16 2 - 12) i) = (m.data.set8 8 (m.data 8 - 1)).set16 10 sum i
  rw [hlen, Buf.set16_u16]
  rcases (show i = 0 ∨ 2 ≤ i ∧ i < 4 ∨ i = 8 ∨ (i = 10 ∨ i = 11) ∨ 16 ≤ i ∨
    i = 1 ∨ 4 ≤ i ∧ i < 8 ∨ 9 ≤ i ∧ i < 16 ∧ i ≠ 10 ∧ i ≠ 11 by omega) with
    rfl | hi' | rfl | hi' | hi' | hi'
  · have hv : (b 0).toNat / 16 * 16 + ((b 0).toNat % 16 - 3) % 16 = (m.data 0).toNat := by omega
    rw [if_pos rfl, hv, UInt8.ofNat_toNat, Buf.set16_of_ne _ (by omega),
      Buf.set8_of_ne _ (by omega)]
  · rw [if_neg (by omega), if_pos hi', Buf.set16_of_ne _ (by omega), Buf.set8_of_ne _ (by omega)]
  · rw [if_neg (by omega), if_neg (by omega), h.field 8 (by omega), ht.ttl,
      Buf.set16_of_ne _ (by omega), Buf.set8_same]
  · rw [if_neg (by omega), if_neg (by omega), h.sum i hi']
    rcases hi' with rfl | rfl <;> rfl
  · rw [if_neg (by omega), if_neg (by omega), Buf.set16_of_ne _ (by omega),
      Buf.set8_of_ne _ (by omega)]
    exact Buf.octets_of_u32 h.dst hi' (by omega)
  · rw [if_neg (by omega), if_neg (by omega), h.field i (by omega), ht.other i (by omega),
      Buf.set16_of_ne _ (by omega), Buf.set8_of_ne _ (by omega)]

/-- What `ip_mforward` makes of it then. -/
theorem ipMforwardArrival_tunnelled (ia : UInt32) (hd : Delivered sent got sum)
    (ht : Tunnelled vif m sent) (hm : Headed m) (hfit : (m.data 0).toNat % 16 ≤ 12)
    (hlcl : vif.lclAddr ≠ 0) :
    ∃ s, ipMforwardArrival
        (got.withData (tunnelRecorded got.data (m.data.u32 ipDstAt) ia)) = .tunnel vif.lclAddr s ∧
      s.octets = (m.withData ((m.data.set8 ipTtlAt (m.data ipTtlAt - 1)).set16 10 sum)).octets := by
  have hlong := hd.long ht hm hfit
  have hmin := hm.min
  have hpull := hm.pullup
  have hrec := hd.recorded ht hm hfit ia
  refine ⟨_, hrec.arrival ht hm hfit hlcl, Chain.octets_ext ?_ ?_⟩
  · have hsent := hd.length
    rw [ht.mLen, ht.rest, List.length_drop, Chain.length_octets] at hsent
    rw [Chain.length_octets, Chain.length_octets]
    simp only [tunnelDelete, Chain.withData, tunnelLen]
    omega
  · intro i
    rcases Nat.lt_or_ge i 20 with hi | hi
    · rw [Chain.octet_lt (by simp only [tunnelDelete, Chain.withData, tunnelLen]; omega),
        Chain.octet_lt (by simp only [Chain.withData]; omega)]
      exact hrec.header ht hfit hi
    · rw [tunnelDelete_behind (by simp only [Chain.withData]; omega) hi,
        Chain.octet_withData _ _ _ (hrec.kept _ (by omega)),
        hd.behind ht hi, Chain.octet_withData]
      rw [Buf.set16_of_ne _ (by omega), Buf.set8_of_ne _ (by simp only [ipTtlAt]; omega)]

end

/-- A multicast datagram whose header leaves room for the tunnel option, and whose own
options are none of the far end's business, comes out of the tunnel as it went in
but for `ip_ttl` (and the checksum that goes with it). -/
theorem tunnel_round_trip (r : Router) (vif : Vif) (m : Chain) (hm : Headed m)
    (hfit : ipHlen m.data ≤ 48) (hgroup : inMulticast (m.data.u32 ipDstAt) = true)
    (hlcl : vif.lclAddr ≠ 0) (hown : r.ifaIfwithaddr vif.rmtAddr ≠ none)
    (hrt : r.ipRtaddr (m.data.u32 ipDstAt) ≠ none)
    (hpass : AllPass r vif.rmtAddr m.data 20 (ipHlen m.data - 20)) :
    ∃ sent, tunnelSend vif true m = some sent ∧ ∀ got sum, Delivered sent got sum →
      ∃ b s, ipDooptions r got.data = .process b ∧
        ipMforwardArrival (got.withData b) = .tunnel vif.lclAddr s ∧
        s.octets =
          (m.withData ((m.data.set8 ipTtlAt (m.data ipTtlAt - 1)).set16 10 sum)).octets := by
  obtain ⟨own, hown⟩ := Option.ne_none_iff_exists'.mp hown
  obtain ⟨ia, hia⟩ := Option.ne_none_iff_exists'.mp hrt
  obtain ⟨sent, hsend⟩ : ∃ sent, tunnelSend vif true m = some sent := by
    refine ⟨_, (if_neg ?_).trans (if_neg (by simp))⟩
    simp only [ipHlen] at hfit
    simp only [tunnelLen]
    omega
  refine ⟨sent, hsend, ?_⟩
  intro got sum hd
  have ht := tunnelSend_tunnelled hsend
  have hhl := (tunnelSend_fits hsend).1
  obtain ⟨s, harrive, hoctets⟩ := ipMforwardArrival_tunnelled ia hd ht hm hhl hlcl
  exact ⟨_, s, ipDooptions_tunnelled hd ht hm hhl hown hia hgroup hpass, harrive, hoctets⟩

/-! ## A router at the far end -/

/-- A router at 10.0.0.1 which reaches the group 224.1.1.1 through that address. -/
def farEnd : Router where
  ifaIfwithaddr a := if a = 0x0a000001 then some 0x0a000001 else none
  ifaIfwithdstaddr _ := none
  ifaIfwithnet a := if a &&& 0xff000000 = 0x0a000000 then some 0x0a000001 else none
  ifaofIfpforaddr _ := some 0x0a000001
  ipRtaddr _ := some 0x0a000001
  iptime := 0

/-- The tunnel to it from 192.168.0.1. -/
def nearEnd : Vif := ⟨0xc0a80001, 0x0a000001⟩

/-- A datagram from 192.168.0.7 to the group, with eight octets of options and two of
data. -/
def groupDatagram (opts : List UInt8) : Chain where
  data := Buf.of ([0x47, 0, 0, 30, 0, 1, 0, 0, 16, 17, 0, 0, 192, 168, 0, 7, 224, 1, 1, 1] ++ opts ++
    [0xab, 0xcd])
  mLen := 30
  rest := []

/-- What the far end's driver makes of what was sent: one mbuf. -/
def oneMbuf (m : Chain) : Chain := ⟨Buf.of m.octets, m.octets.length, []⟩

theorem tunnel_round_trip_padded :
    ∃ sent, tunnelSend nearEnd true (groupDatagram [1, 1, 1, 1, 1, 1, 1, 0]) = some sent ∧
      ∃ b s, ipDooptions farEnd (oneMbuf sent).data = .process b ∧
        ipMforwardArrival ((oneMbuf sent).withData b) = .tunnel 0xc0a80001 s ∧
        s.octets = [0x47, 0, 0, 30, 0, 1, 0, 0, 15, 17, 0, 0, 192, 168, 0, 7, 224, 1, 1, 1] ++
          [1, 1, 1, 1, 1, 1, 1, 0] ++ [0xab, 0xcd] := by
  obtain ⟨sent, hsend, htrip⟩ := tunnel_round_trip farEnd nearEnd
    (groupDatagram [1, 1, 1, 1, 1, 1, 1, 0]) ⟨by decide, by decide⟩ (by decide) (by decide)
    (by decide) (by decide) (by decide)
    (.nop rfl (.nop rfl (.nop rfl (.nop rfl (.nop rfl (.nop rfl (.nop rfl (.stop (.inr rfl)))))))))
  refine ⟨sent, hsend, ?_⟩
  cases hsend
  exact htrip (oneMbuf _) 0 ⟨by decide, by decide, by decide⟩

/-- A recorded route with room in it does not come out as it went in: the far end has
put itself into it. -/
theorem tunnel_records_route :
    ¬ ∀ (r : Router) (vif : Vif) (m sent got s : Chain) (b : Buf) (sum : UInt16), Headed m →
      inMulticast (m.data.u32 ipDstAt) = true → vif.lclAddr ≠ 0 →
      r.ifaIfwithaddr vif.rmtAddr ≠ none → (∀ a, r.ipRtaddr a ≠ none) →
      tunnelSend vif true m = some sent → Delivered sent got sum →
      ipDooptions r got.data = .process b →
      ipMforwardArrival (got.withData b) = .tunnel vif.lclAddr s →
      s.octets = (m.withData ((m.data.set8 ipTtlAt (m.data ipTtlAt - 1)).set16 10 sum)).octets := by
  intro h
  obtain ⟨sent, hsend⟩ :
      ∃ sent, tunnelSend nearEnd true (groupDatagram [7, 7, 4, 0, 0, 0, 0, 0]) = some sent :=
    ⟨_, rfl⟩
  have htrip := h farEnd nearEnd (groupDatagram [7, 7, 4, 0, 0, 0, 0, 0]) sent (oneMbuf sent)
  cases hsend
  have hoctets := htrip _ _ 0 ⟨by decide, by decide⟩ (by decide) (by decide) (by decide)
    (fun _ => by simp [farEnd]) rfl ⟨by decide, by decide, by decide⟩ rfl rfl
  exact absurd hoctets (by decide)

end VxWorks.Netinet
