import VxWorks.Lib.Buffer
import VxWorks.Netinet.InPcb
import VxWorks.Netinet.IpOutput

/-!
# Options of a datagram on the way in (ip_input.c)

`ip_dooptions` walks the options behind the fixed header and acts on four kinds
of them: the two source routes, the recorded route and the timestamps. It works
in place, on the first mbuf of the datagram, and nothing keeps the pointers that
come with an option inside of it, so what it works on here is a buffer that
starts with the header: an option whose pointer is wrong reads and writes in the
header or in the data.

The interfaces and the clock of the host are its `Router`; an `in_ifaddr` is the
address it holds. What `save_rte` keeps for replies is read by nothing here.
-/

namespace VxWorks.Netinet

open VxWorks.Lib

def ipoptRr : UInt8 := 7

def ipoptTs : UInt8 := 68

def ipoptLsrr : UInt8 := 131

def ipoptSsrr : UInt8 := 137

def ipoptMinoff : Nat := 4

structure Router where
  ifaIfwithaddr : UInt32 → Option UInt32
  ifaIfwithdstaddr : UInt32 → Option UInt32
  ifaIfwithnet : UInt32 → Option UInt32
  /-- the answer for the interface the datagram came in on -/
  ifaofIfpforaddr : UInt32 → Option UInt32
  ipRtaddr : UInt32 → Option UInt32
  iptime : UInt32

inductive IcmpType where
  | unreach | paramprob
deriving DecidableEq, Repr

def icmpUnreachHost : Nat := 1

def icmpUnreachSrcfail : Nat := 5

/-- `ip_len`, `ip_src` and `ip_dst` where they stand in the header. -/
def ipLenAt : Nat := 2

def ipSrcAt : Nat := 12

def ipDstAt : Nat := 16

/-- An option was handled, or the datagram goes to `bad`. -/
inductive OptRound where
  | next (forward : Bool) (b : Buf)
  | bad (type : IcmpType) (code : Nat)

/-- `off > optlen - sizeof (struct in_addr)`: the size is unsigned, and so is the
difference. -/
def noRoom (off optlen : Nat) : Bool := (optlen + 0x100000000 - 4) % 0x100000000 < off

/-- `IPOPT_LSRR` and `IPOPT_SSRR`, at `cp`. -/
def optSourceRoute (r : Router) (opt : UInt8) (cp optlen : Nat) (forward : Bool) (b : Buf) :
    OptRound :=
  let off := (b (cp + 2)).toNat
  if off < ipoptMinoff then .bad .paramprob (cp + 2)
  else
    match r.ifaIfwithaddr (b.u32 ipDstAt) with
    | none => if opt = ipoptSsrr then .bad .unreach icmpUnreachSrcfail else .next forward b
    | some _ =>
        let off := off - 1
        if noRoom off optlen then .next forward b
        else
          let ipaddr := b.u32 (cp + off)
          let ia :=
            if opt = ipoptSsrr then
              match r.ifaIfwithdstaddr ipaddr with
              | some ia => some ia
              | none => r.ifaIfwithnet ipaddr
            else r.ipRtaddr ipaddr
          match ia with
          | none => .bad .unreach icmpUnreachSrcfail
          | some ia =>
              let b := (b.set32 ipDstAt ipaddr).set32 (cp + off) ia
              .next (!inMulticast ipaddr) (b.set8 (cp + 2) (b (cp + 2) + 4))

/-- `IPOPT_RR`. -/
def optRecordRoute (r : Router) (cp optlen : Nat) (forward : Bool) (b : Buf) : OptRound :=
  let off := (b (cp + 2)).toNat
  if off < ipoptMinoff then .bad .paramprob (cp + 2)
  else
    let off := off - 1
    if noRoom off optlen then .next forward b
    else
      let ipaddr := b.u32 ipDstAt
      let ia :=
        match r.ifaIfwithaddr ipaddr with
        | some ia => some ia
        | none => r.ipRtaddr ipaddr
      match ia with
      | none => .bad .unreach icmpUnreachHost
      | some ia =>
          let b := b.set32 (cp + off) ia
          .next forward (b.set8 (cp + 2) (b (cp + 2) + 4))

/-- `ntime` at the pointer, and the pointer moved on. -/
def optStamp (r : Router) (cp : Nat) (b : Buf) : Buf :=
  let b := b.set32 (cp + (b (cp + 2)).toNat - 1) r.iptime
  b.set8 (cp + 2) (b (cp + 2) + 4)

/-- `IPOPT_TS`; the flags are the low half of the fourth octet, the overflow count
the high half. -/
def optTimestamp (r : Router) (dst : UInt32) (cp : Nat) (forward : Bool) (b : Buf) : OptRound :=
  let len := (b (cp + 1)).toNat
  let ptr := (b (cp + 2)).toNat
  let flg := (b (cp + 3)).toNat % 16
  let oflw := (b (cp + 3)).toNat / 16
  if len < 5 then .bad .paramprob cp
  else if len - 4 < ptr then
    let b := b.set8 (cp + 3) (UInt8.ofNat ((oflw + 1) % 16 * 16 + flg))
    if (oflw + 1) % 16 = 0 then .bad .paramprob cp else .next forward b
  else if flg = 0 then .next forward (optStamp r cp b)
  else if flg = 1 then
    if len < ptr + 8 then .bad .paramprob cp
    else
      match r.ifaofIfpforaddr dst with
      | none => .next forward b
      | some ia =>
          let b := b.set32 (cp + ptr - 1) ia
          .next forward (optStamp r cp (b.set8 (cp + 2) (b (cp + 2) + 4)))
  else if flg = 3 then
    if len < ptr + 8 then .bad .paramprob cp
    else
      match r.ifaIfwithaddr (b.u32 (cp + ptr - 1)) with
      | none => .next forward b
      | some _ => .next forward (optStamp r cp (b.set8 (cp + 2) (b (cp + 2) + 4)))
  else .bad .paramprob cp

/-- The `switch` over the option at `cp`. -/
def optSwitch (r : Router) (dst : UInt32) (cp optlen : Nat) (forward : Bool) (b : Buf) :
    OptRound :=
  let opt := b cp
  if opt = ipoptLsrr ∨ opt = ipoptSsrr then optSourceRoute r opt cp optlen forward b
  else if opt = ipoptRr then optRecordRoute r cp optlen forward b
  else if opt = ipoptTs then optTimestamp r dst cp forward b
  else .next forward b

/-- The loop over the options. Each round takes at least one of the `cnt` octets
that are left, so `cnt` rounds are enough. -/
def dooptionsLoop (r : Router) (dst : UInt32) : Nat → Nat → Nat → Bool → Buf → OptRound
  | 0, _, _, forward, b => .next forward b
  | fuel + 1, cp, cnt, forward, b =>
      if cnt = 0 ∨ b cp = ipoptEol then .next forward b
      else
        let optlen := if b cp = ipoptNop then 1 else (b (cp + 1)).toNat
        if optlen = 0 ∨ cnt < optlen then .bad .paramprob (cp + 1)
        else
          match optSwitch r dst cp optlen forward b with
          | .bad type code => .bad type code
          | .next forward b => dooptionsLoop r dst fuel (cp + optlen) (cnt - optlen) forward b

/-- `ip_hl << 2`. -/
def ipHlen (b : Buf) : Nat := (b 0).toNat % 16 * 4

/-- What becomes of the datagram: it is processed further, or it was forwarded by
its source route, or an ICMP error is all that is left of it. -/
inductive Dooptions where
  | process (b : Buf)
  | forward (b : Buf)
  | bad (type : IcmpType) (code : Nat)

/-- The end of `ip_dooptions`, behind its loop. -/
def OptRound.dooptions : OptRound → Dooptions
  | .bad type code => .bad type code
  | .next false b => .process b
  | .next true b => .forward b

/-- `ip_dooptions`. -/
def ipDooptions (r : Router) (b : Buf) : Dooptions :=
  (dooptionsLoop r (b.u32 ipDstAt) (ipHlen b - 20) 20 (ipHlen b - 20) false b).dooptions

end VxWorks.Netinet
