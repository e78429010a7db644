import VxWorks.Netinet.SlRoundTrip
import VxWorks.Ppp.Framing

/-!
# Packets on their way out (`if_ppp.c`)

`pppoutput` puts a header in front of a packet and the packet on a queue; `ppp_dequeue` takes it
off again and compresses it. What `sl_compress_tcp` leaves of a packet replaces the front of it: the
other mbufs stay as they are, so the compression has to take all that it takes out of the first one.
It does if the headers are in it.

The hook of `pppoutput` is given a copy of the packet, whose buffer is taken to be long enough.
-/

namespace VxWorks.Ppp

open VxWorks.Lib VxWorks.Netinet

/-! ## `pppoutput` -/

def interactivePorts : List UInt16 := [0, 513, 0, 0, 0, 21, 0, 23]

/-- `INTERACTIVE` -/
def interactive (p : UInt16) : Bool := interactivePorts.getD (p &&& 7).toNat 0 == p

/-- The destination: `AF_INET`, `AF_UNSPEC` with the header in `sa_data`, or another family. -/
inductive Dst where
  | inet
  | unspec (address control : UInt8) (protocol : UInt16)
  | other

/-- What `pppoutput` goes by besides the queues: that `sc_fd` is open and the interface up and
running, `SC_ENABLE_IP`, what the hook keeps, and the longest that the queues may be. -/
structure PppIf where
  up : Bool
  enableIp : Bool
  hook : List UInt8 → Bool
  ifqMaxlen : Bool → Nat

/-- The header, and whether the packet goes on `sc_fastq`. The IP header and the ports behind it are
looked for in the first mbuf. -/
def pppHeader (ifp : PppIf) (m0 : Mbufs) : Dst → Option (List UInt8 × Bool)
  | .inet =>
      if ifp.enableIp then
        let ip := Buf.of (m0.headD [])
        let ports := 4 * ipHl ip
        some ([pppAllstations, pppUi] ++ put16 pppIp,
          ip 9 == ipprotoTcp && (interactive (ip.u16 (ports + 2)) || interactive (ip.u16 ports)))
      else none
  | .unspec address control protocol => some ([address, control] ++ put16 protocol, false)
  | .other => none

/-- A queue of the interface. -/
def Out.queue (sc : Out) (fast : Bool) : List Mbufs := if fast then sc.fastq else sc.snd

/-- `IF_ENQUEUE` -/
def Out.enqueue (sc : Out) (fast : Bool) (m : Mbufs) : Out :=
  if fast then { sc with fastq := sc.fastq ++ [m] } else { sc with snd := sc.snd ++ [m] }

def Dst.isUnspec : Dst → Bool
  | .unspec _ _ _ => true
  | _ => false

/-- `pppoutput`: the queue the packet is put on, and the packet as it is put there; `space` is
whether there is room for the header in front of the first mbuf, `mbuf` whether there is an mbuf
for it otherwise. -/
def pppoutput (ifp : PppIf) (sc : Out) (space mbuf : Bool) (m0 : Mbufs) (dst : Dst) :
    Option (Bool × Mbufs) :=
  if ifp.up = false ∧ dst.isUnspec = false then none
  else
    match pppHeader ifp m0 dst with
    | none => none
    | some (hdr, fast) =>
        if space = false ∧ mbuf = false then none
        else
          let m := if space then (hdr ++ m0.headD []) :: m0.tail else hdr :: m0
          if ifp.hook m.flatten then none
          else if ifp.ifqMaxlen fast ≤ (sc.queue fast).length then none
          else some (fast, m)

/-! ## What is left of a packet -/

section

variable {pkt front rest out : List UInt8} {comp comp' : SlCompress} {mLen : Nat} {cid : Bool}
  {type : PktType} {old ip : Buf}

theorem length_encode_le (n : UInt16) : (encode n).length ≤ 3 := by
  rw [encode]
  split <;> simp

theorem length_encodez_le (n : UInt16) : (encodez n).length ≤ 3 := by
  rw [encodez]
  split <;> simp

theorem length_ite_le {p : Prop} [Decidable p] {l : List UInt8} {n : Nat} (h : l.length ≤ n) :
    (if p then l else []).length ≤ n := by
  split
  · exact h
  · exact Nat.zero_le n

theorem said_length {changes : UInt8} {newSeq : List UInt8} (h : Said old ip changes newSeq) :
    newSeq.length ≤ 12 := by
  cases h with
  | fields =>
      have hu := length_ite_le (p := urgent ip (tcpAt ip) = true)
        (length_encodez_le (ip.u16 (tcpAt ip + 18)))
      have hw := length_ite_le (p := (deltaW old ip != 0) = true) (length_encode_le (deltaW old ip))
      have ha := length_ite_le (p := (deltaA old ip != 0) = true)
        (length_encode_le (deltaA old ip).toUInt16)
      have hs := length_ite_le (p := (deltaS old ip != 0) = true)
        (length_encode_le (deltaS old ip).toUInt16)
      simp only [fieldSeq, List.length_append]
      omega
  | echo => exact Nat.zero_le _
  | data => exact Nat.zero_le _

/-- The front of a packet with both headers is replaced by something that is no longer. -/
structure Shortens (pkt front rest out : List UInt8) : Prop where
  split : ∃ front', out = front' ++ rest
  le : out.length ≤ pkt.length

theorem slUncompressed_shortens (hpkt : pkt = front ++ rest) (h10 : 10 ≤ front.length) (cs : Nat) :
    Shortens pkt front rest (slUncompressed comp cs pkt).2.1 := by
  subst hpkt
  rw [slUncompressed]
  refine ⟨⟨front.set 9 (comp.tstate cs).csId, ?_⟩, ?_⟩
  · exact List.set_append_left _ _ (by omega)
  · exact (List.length_set ..).le

theorem slCompressed_shortens (hpkt : pkt = front ++ rest) (h40 : 40 ≤ hdrLen (.of pkt))
    (hfront : hdrLen (.of pkt) ≤ front.length) (cs : Nat) {changes : UInt8} {newSeq : List UInt8}
    (hseq : newSeq.length ≤ 12) :
    Shortens pkt front rest (slCompressed comp cid cs pkt changes newSeq).2.1 := by
  have hdata : pkt.drop (hdrLen (.of pkt)) = front.drop (hdrLen (.of pkt)) ++ rest := by
    generalize hdrLen (.of pkt) = n at hfront
    rw [hpkt, List.drop_append_of_le_length hfront]
  have hid := length_ite_le
    (p := ((((Buf.of pkt).u16 4).toUInt32 - ((comp.tstate cs).csHdr.u16 4).toUInt32) != 1) = true)
    (length_encodez_le
      (((Buf.of pkt).u16 4).toUInt32 - ((comp.tstate cs).csHdr.u16 4).toUInt32).toUInt16)
  have hlen := congrArg List.length hpkt
  rw [List.length_append] at hlen
  rw [slCompressed, hdata]
  split
  · refine ⟨⟨_, by simp only [← List.append_assoc, ← List.cons_append]; rfl⟩, ?_⟩
    simp only [List.length_cons, List.length_append, length_put16, List.length_drop]
    omega
  · refine ⟨⟨_, by simp only [← List.append_assoc, ← List.cons_append]; rfl⟩, ?_⟩
    simp only [List.length_cons, List.length_append, length_put16, List.length_drop]
    omega

theorem slCompressTcp_shortens (hpkt : pkt = front ++ rest) (h40 : 40 ≤ hdrLen (.of pkt))
    (hfront : hdrLen (.of pkt) ≤ front.length)
    (h : slCompressTcp mLen pkt comp cid = some (type, out, comp')) :
    Shortens pkt front rest out := by
  have hsame : Shortens pkt front rest pkt := ⟨⟨front, hpkt⟩, Nat.le_refl _⟩
  have hwhole : ∀ {tx : SlCompress} {cs : Nat}, slUncompressed tx cs pkt = (type, out, comp') →
      Shortens pkt front rest out := by
    intro tx cs heq
    have hs := @slUncompressed_shortens _ _ _ tx hpkt (by omega) cs
    rwa [heq] at hs
  rw [slCompressTcp] at h
  dsimp only at h
  split at h
  · obtain ⟨-, rfl, -⟩ : PktType.ip = type ∧ pkt = out ∧ comp = comp' := by simpa using h
    exact hsame
  split at h
  · obtain ⟨-, rfl, -⟩ : PktType.ip = type ∧ pkt = out ∧ comp = comp' := by simpa using h
    exact hsame
  obtain ⟨⟨found, cs, tx⟩, -, hmade⟩ := Option.map_eq_some_iff.mp h
  cases found with
  | false => exact hwhole hmade
  | true =>
      dsimp only at hmade
      split at hmade
      · split at hmade
        · exact hwhole hmade
        · next changes newSeq hch =>
            obtain ⟨-, -, -, hsaid⟩ := slChanges_said hch
            have hs := @slCompressed_shortens _ _ _ tx cid hpkt h40 hfront cs changes _
              (said_length hsaid)
            rwa [hmade] at hs
      · exact hwhole hmade

end

end VxWorks.Ppp
