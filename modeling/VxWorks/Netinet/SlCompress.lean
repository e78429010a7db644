import VxWorks.Lib.Buffer
import VxWorks.Lib.Ring

/-!
# TCP/IP header compression (`sl_compress.c`)

A sender keeps the header of the last packet of each of sixteen connections and
sends what changed; a receiver keeps the same headers and puts the packet
together again. Nothing confirms that the two agree.

Headers are octets here as they are in the source, in buffers that are read and
written through the offsets of `struct ip` and `struct tcphdr` on a machine in
network byte order. An mbuf chain is the list of its octets together with the
length of its first mbuf, the only thing about the chain that is looked at.
The slots of the sender are linked in order of use and the source walks the ring
with pointers; the pointers are the indices of the slots.
-/

namespace VxWorks.Netinet

open VxWorks.Lib

def maxStates : Nat := 16

/-! ## Header fields -/

def ipprotoTcp : UInt8 := 6

/-- `ip_hl`, in words. -/
def ipHl (b : Buf) : Nat := (b 0).toNat % 16

/-- Where the TCP header starts. -/
def tcpAt (b : Buf) : Nat := 4 * ipHl b

/-- `th_off` of the TCP header at `t`, in words. -/
def thOff (b : Buf) (t : Nat) : Nat := (b (t + 12)).toNat / 16

def thFlags (b : Buf) (t : Nat) : UInt8 := b (t + 13)

/-- The length of the two headers, in octets. -/
def hdrLen (b : Buf) : Nat := 4 * (ipHl b + thOff b (tcpAt b))

theorem hdrLen_le (b : Buf) : hdrLen b ≤ 120 := by
  have h := (b (tcpAt b + 12)).toNat_lt
  have h₁ : ipHl b < 16 := Nat.mod_lt _ (by decide)
  rw [hdrLen, thOff]
  omega

def thFin : UInt8 := 0x01
def thSyn : UInt8 := 0x02
def thRst : UInt8 := 0x04
def thPush : UInt8 := 0x08
def thAck : UInt8 := 0x10
def thUrg : UInt8 := 0x20

/-! ## State -/

/-- `struct cstate`. -/
structure CState where
  csNext : Nat
  csHlen : UInt16
  csId : UInt8
  csHdr : Buf

/-- `struct slcompress`; the only flag is `SLF_TOSS`. -/
structure SlCompress where
  lastCs : Nat
  lastRecv : UInt8
  lastXmit : UInt8
  toss : Bool
  tstate : Nat → CState
  rstate : Nat → CState

/-- `sl_compress_init`. -/
def slCompressInit : SlCompress where
  lastCs := 0
  lastRecv := 255
  lastXmit := 255
  toss := true
  tstate i :=
    { csNext := if i = 0 then maxStates - 1 else i - 1
      csHlen := 0
      csId := UInt8.ofNat i
      csHdr := fun _ => 0 }
  rstate _ := { csNext := 0, csHlen := 0, csId := 0, csHdr := fun _ => 0 }

inductive PktType where
  | ip | uncompressedTcp | compressedTcp | error
deriving DecidableEq, Repr

def newC : UInt8 := 0x40
def newI : UInt8 := 0x20
def tcpPushBit : UInt8 := 0x10
def newS : UInt8 := 0x08
def newA : UInt8 := 0x04
def newW : UInt8 := 0x02
def newU : UInt8 := 0x01

/-- Echoed interactive traffic. -/
def specialI : UInt8 := newS ||| newW ||| newU

/-- Unidirectional data. -/
def specialD : UInt8 := newS ||| newA ||| newW ||| newU

def specialsMask : UInt8 := newS ||| newA ||| newW ||| newU

/-- A bit of the mask, if it is to be set. -/
def bit (set : Bool) (mask : UInt8) : UInt8 := if set then mask else 0

/-! ## The sender -/

/-- `ENCODE`, for a number that is known to be non-zero. -/
def encode (n : UInt16) : List UInt8 :=
  if 256 ≤ n then [0, (n >>> 8).toUInt8, n.toUInt8] else [n.toUInt8]

/-- `ENCODEZ`: zero has to be encoded in the long form. -/
def encodez (n : UInt16) : List UInt8 :=
  if 256 ≤ n ∨ n = 0 then [0, (n >>> 8).toUInt8, n.toUInt8] else [n.toUInt8]

/-- The slot belongs to the connection of the packet: addresses and ports. -/
def sameConn (cs : CState) (ip : Buf) : Bool :=
  ip.u32 12 == cs.csHdr.u32 12 && ip.u32 16 == cs.csHdr.u32 16 &&
    ip.u32 (tcpAt ip) == cs.csHdr.u32 (tcpAt cs.csHdr)

def ringNext (comp : SlCompress) (i : Nat) : Nat := (comp.tstate i).csNext

/-- The slot at `cs`, whose predecessor is `lcs`, moves to the front. -/
def toFront (comp : SlCompress) (lcs cs : Nat) : SlCompress :=
  { comp with tstate := fun i =>
      { comp.tstate i with csNext := moveFront (ringNext comp) lcs cs comp.lastCs i } }

/-- Locate the connection's slot or take the oldest one, and put it in front.
The flag says that it was found; the answer is `none` if the loop has not come
to its end after going round once. -/
def slLocate (comp : SlCompress) (ip : Buf) : Option (Bool × Nat × SlCompress) :=
  let cs := ringNext comp comp.lastCs
  if sameConn (comp.tstate cs) ip then some (true, cs, comp)
  else
    (ringSearch (ringNext comp) (fun i => sameConn (comp.tstate i) ip) comp.lastCs
        maxStates cs).map fun r =>
      match r with
      | (false, lcs, cs) => (false, cs, { comp with lastCs := lcs })
      | (true, lcs, cs) =>
          if cs = comp.lastCs then (true, cs, { comp with lastCs := lcs })
          else (true, cs, toFront comp lcs cs)

/-- Only what is expected to change changed: version, header length and type of
service, the "Don't fragment" bit, time-to-live and protocol, TCP header length,
IP options, TCP options. -/
def sameTemplate (old ip : Buf) : Bool :=
  let t := tcpAt ip
  ip.u16 0 == old.u16 0 && ip.u16 6 == old.u16 6 && ip.u16 8 == old.u16 8 &&
    thOff ip t == thOff old t &&
    decide (∀ i < 4 * (ipHl ip - 5), ip (20 + i) = old (20 + i)) &&
    decide (∀ i < 4 * (thOff ip t - 5), ip (t + 20 + i) = old (t + 20 + i))

/-- The `switch (changes)`: whether to send the packet compressed, and whether
one of the two special encodings says it all. -/
def slSwitch (old ip : Buf) (changes : UInt8) (newSeq : List UInt8) (deltaA deltaS : UInt32) :
    Option (UInt8 × List UInt8) :=
  let data := (old.u16 2).toUInt32 - UInt32.ofNat (hdrLen ip)
  if changes = 0 then
    if ip.u16 2 ≠ old.u16 2 ∧ (old.u16 2).toNat = hdrLen ip then some (changes, newSeq) else none
  else if changes = specialI ∨ changes = specialD then none
  else if changes = newS ||| newA then
    if deltaS = deltaA ∧ deltaS = data then some (specialI, []) else some (changes, newSeq)
  else if changes = newS then
    if deltaS = data then some (specialD, []) else some (changes, newSeq)
  else some (changes, newSeq)

/-- Which of the changing fields changed, in the order the receiver expects:
urgent, window, ack, seq. The answer is `none` when the packet has to be sent
uncompressed. -/
def slChanges (old ip : Buf) : Option (UInt8 × List UInt8) :=
  let t := tcpAt ip
  let urg : Bool := thFlags ip t &&& thUrg != 0
  let deltaW := ip.u16 (t + 14) - old.u16 (t + 14)
  let deltaA := ip.u32 (t + 8) - old.u32 (t + 8)
  let deltaS := ip.u32 (t + 4) - old.u32 (t + 4)
  if ¬ urg ∧ ip.u16 (t + 18) ≠ old.u16 (t + 18) then none
  else if 0xffff < deltaA then none
  else if 0xffff < deltaS then none
  else
    slSwitch old ip
      (bit urg newU ||| bit (deltaW != 0) newW ||| bit (deltaA != 0) newA |||
        bit (deltaS != 0) newS)
      ((if urg then encodez (ip.u16 (t + 18)) else []) ++
        ((if deltaW != 0 then encode deltaW else []) ++
        ((if deltaA != 0 then encode deltaA.toUInt16 else []) ++
        (if deltaS != 0 then encode deltaS.toUInt16 else []))))
      deltaA deltaS

/-- The packet's header replaces the one in the slot. -/
def saveHdr (comp : SlCompress) (cs : Nat) (ip : Buf) : SlCompress :=
  { comp with tstate := fun i =>
      if i = cs then { comp.tstate i with csHdr := Buf.copy ip (comp.tstate i).csHdr (hdrLen ip) }
      else comp.tstate i }

/-- Send the packet whole, with the connection's id in place of the protocol. -/
def slUncompressed (comp : SlCompress) (cs : Nat) (pkt : List UInt8) :
    PktType × List UInt8 × SlCompress :=
  let id := (comp.tstate cs).csId
  (.uncompressedTcp, pkt.set 9 id, { saveHdr comp cs (Buf.of pkt) with lastXmit := id })

/-- Send the changes: the mask, the connection's id unless it is the same as
last time, the TCP checksum, the changed fields and the data. -/
def slCompressed (comp : SlCompress) (compressCid : Bool) (cs : Nat) (pkt : List UInt8)
    (changes : UInt8) (newSeq : List UInt8) : PktType × List UInt8 × SlCompress :=
  let ip := Buf.of pkt
  let t := tcpAt ip
  let id := (comp.tstate cs).csId
  let deltaI := (ip.u16 4).toUInt32 - ((comp.tstate cs).csHdr.u16 4).toUInt32
  let changes := changes ||| bit (deltaI != 1) newI |||
    bit (thFlags ip t &&& thPush != 0) tcpPushBit
  let newSeq := newSeq ++ (if deltaI != 1 then encodez deltaI.toUInt16 else [])
  let sum := put16 (ip.u16 (t + 16))
  let data := pkt.drop (hdrLen ip)
  let comp := saveHdr comp cs ip
  if compressCid = false ∨ comp.lastXmit ≠ id then
    (.compressedTcp, (changes ||| newC) :: id :: (sum ++ (newSeq ++ data)),
      { comp with lastXmit := id })
  else (.compressedTcp, changes :: (sum ++ (newSeq ++ data)), comp)

/-- `sl_compress_tcp`. -/
def slCompressTcp (mLen : Nat) (pkt : List UInt8) (comp : SlCompress) (compressCid : Bool) :
    Option (PktType × List UInt8 × SlCompress) :=
  let ip := Buf.of pkt
  if ip.u16 6 &&& 0x3fff ≠ 0 ∨ mLen < 40 then some (.ip, pkt, comp)
  else if thFlags ip (tcpAt ip) &&& (thSyn ||| thFin ||| thRst ||| thAck) ≠ thAck then
    some (.ip, pkt, comp)
  else
    (slLocate comp ip).map fun r =>
      match r with
      | (false, cs, comp) => slUncompressed comp cs pkt
      | (true, cs, comp) =>
          let old := (comp.tstate cs).csHdr
          if sameTemplate old ip then
            match slChanges old ip with
            | none => slUncompressed comp cs pkt
            | some (changes, newSeq) => slCompressed comp compressCid cs pkt changes newSeq
          else slUncompressed comp cs pkt

/-! ## The receiver -/

/-- The number at `cp`, and where it ends. -/
def decode (b : Buf) (cp : Nat) : UInt16 × Nat :=
  if b cp = 0 then (b.u16 (cp + 1), cp + 3) else ((b cp).toUInt16, cp + 1)

/-- `DECODEL`: add to a four-octet field. -/
def decodel (b : Buf) (f : Nat) (r : Buf × Nat) : Buf × Nat :=
  let d := decode b r.2
  (r.1.set32 f (r.1.u32 f + d.1.toUInt32), d.2)

/-- `DECODES`: add to a two-octet field. -/
def decodes (b : Buf) (f : Nat) (r : Buf × Nat) : Buf × Nat :=
  let d := decode b r.2
  (r.1.set16 f (r.1.u16 f + d.1), d.2)

/-- `DECODEU`: replace a two-octet field. -/
def decodeu (b : Buf) (f : Nat) (r : Buf × Nat) : Buf × Nat :=
  let d := decode b r.2
  (r.1.set16 f d.1, d.2)

/-- The `default` branch of the receiver's switch: urgent, window, ack, seq. -/
def slFields (b : Buf) (changes : UInt8) (t : Nat) (r : Buf × Nat) : Buf × Nat :=
  let r :=
    if changes &&& newU ≠ 0 then
      decodeu b (t + 18) (r.1.set8 (t + 13) (thFlags r.1 t ||| thUrg), r.2)
    else (r.1.set8 (t + 13) (thFlags r.1 t &&& ~~~ thUrg), r.2)
  let r := if changes &&& newW ≠ 0 then decodes b (t + 14) r else r
  let r := if changes &&& newA ≠ 0 then decodel b (t + 8) r else r
  if changes &&& newS ≠ 0 then decodel b (t + 4) r else r

/-- The push flag. -/
def slPush (changes : UInt8) (t : Nat) (hdr : Buf) : Buf :=
  if changes &&& tcpPushBit ≠ 0 then hdr.set8 (t + 13) (thFlags hdr t ||| thPush)
  else hdr.set8 (t + 13) (thFlags hdr t &&& ~~~ thPush)

/-- The receiver's switch. -/
def slRecvSwitch (b : Buf) (changes : UInt8) (hlen : UInt16) (t : Nat) (hdr : Buf) (cp : Nat) :
    Buf × Nat :=
  let data := (hdr.u16 2).toUInt32 - hlen.toUInt32
  if changes &&& specialsMask = specialI then
    let hdr := hdr.set32 (t + 8) (hdr.u32 (t + 8) + data)
    (hdr.set32 (t + 4) (hdr.u32 (t + 4) + data), cp)
  else if changes &&& specialsMask = specialD then
    (hdr.set32 (t + 4) (hdr.u32 (t + 4) + data), cp)
  else slFields b changes t (hdr, cp)

/-- The saved header with the changes applied, and where the data starts. -/
def slApply (b : Buf) (changes : UInt8) (cs : CState) (cp : Nat) : Buf × Nat :=
  let t := tcpAt cs.csHdr
  let hdr := slPush changes t (cs.csHdr.set16 (t + 16) (b.u16 cp))
  let r := slRecvSwitch b changes cs.csHlen t hdr (cp + 2)
  if changes &&& newI ≠ 0 then decodes b 4 r
  else (r.1.set16 4 (r.1.u16 4 + 1), r.2)

/-- The sum of the first `n` two-octet words. -/
def wordSum (b : Buf) : Nat → UInt32
  | 0 => 0
  | n + 1 => wordSum b n + (b.u16 (2 * n)).toUInt32

/-- Add the carries to the low half. -/
def foldCarry (s : UInt32) : UInt32 := (s &&& (0xffff : UInt32)) + (s >>> (16 : UInt32))

/-- The checksum of an IP header of `hlen` octets. -/
def ipCksum (b : Buf) (hlen : Nat) : UInt16 :=
  ~~~ (foldCarry (foldCarry (wordSum b (hlen / 2)))).toUInt16

def setSlot (comp : SlCompress) (i : Nat) (cs : CState) : SlCompress :=
  { comp with rstate := fun j => if j = i then cs else comp.rstate j }

/-- The error exit. -/
def slBad (comp : SlCompress) : Option (List UInt8) × SlCompress :=
  (none, { comp with toss := true })

/-- A whole packet, with a connection id where the protocol should be. -/
def slRecvUncompressed (pkt : List UInt8) (comp : SlCompress) :
    Option (List UInt8) × SlCompress :=
  let id := Buf.of pkt 9
  if maxStates ≤ id.toNat then slBad comp
  else
    let pkt := pkt.set 9 ipprotoTcp
    let ip := Buf.of pkt
    let cs := comp.rstate id.toNat
    let cs := { cs with
      csHdr := (Buf.copy ip cs.csHdr (hdrLen ip)).set16 10 0
      csHlen := UInt16.ofNat (hdrLen ip) }
    (some pkt, { setSlot comp id.toNat cs with lastRecv := id, toss := false })

/-- The changes start at `cp` and apply to the slot of the connection received
last. A packet that ends before its changes do is dropped after they were
applied. -/
def slRecvChanges (pkt : List UInt8) (comp : SlCompress) (cp : Nat) :
    Option (List UInt8) × SlCompress :=
  let i := comp.lastRecv.toNat
  let cs := comp.rstate i
  let b := Buf.of pkt
  let r := slApply b (b 0) cs cp
  if pkt.length < r.2 then slBad (setSlot comp i { cs with csHdr := r.1 })
  else
    let len := pkt.length - r.2 + cs.csHlen.toNat
    let hdr := r.1.set16 2 (UInt16.ofNat len)
    let out := hdr.set16 10 (ipCksum hdr (tcpAt cs.csHdr))
    (some (out.take cs.csHlen.toNat ++ pkt.drop r.2), setSlot comp i { cs with csHdr := hdr })

/-- `sl_uncompress_tcp`. -/
def slUncompressTcp (type : PktType) (pkt : List UInt8) (comp : SlCompress) :
    Option (List UInt8) × SlCompress :=
  match type with
  | .uncompressedTcp => slRecvUncompressed pkt comp
  | .compressedTcp =>
      let b := Buf.of pkt
      if b 0 &&& newC ≠ 0 then
        if maxStates ≤ (b 1).toNat then slBad comp
        else slRecvChanges pkt { comp with toss := false, lastRecv := b 1 } 2
      else if comp.toss then (none, comp)
      else slRecvChanges pkt comp 1
  | .ip | .error => slBad comp

end VxWorks.Netinet
