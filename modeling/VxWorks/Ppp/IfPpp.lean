import VxWorks.Netinet.SlCompress

/-!
# The asynchronous PPP interface (`if_ppp.c`)

What goes over the serial line. On the way out a packet is taken off a queue, its
header is compressed, its octets are escaped and a check sequence and a closing
flag are put after them; on the way in the octets come one at a time.

An mbuf is the list of its octets and a chain is the list of its mbufs. The line
is the list of its `write`s, and what each takes is up to the device, as is the
number of octets `FIONWRITE` says are still waiting. Where the mbufs of
the receiver come from is a parameter as well.
-/

namespace VxWorks.Ppp

open VxWorks.Lib VxWorks.Netinet

abbrev Mbufs := List (List UInt8)

/-- `ext_accm`: eight words, one bit for each octet that is to be escaped. -/
abbrev ExtAccm := Nat → UInt32

def pppAllstations : UInt8 := 0xff
def pppUi : UInt8 := 0x03
def pppFlag : UInt8 := 0x7e
def pppEscape : UInt8 := 0x7d
def pppTrans : UInt8 := 0x20

def pppHdrlen : Nat := 4
def pppFcslen : Nat := 2

def pppIp : UInt16 := 0x21
def pppVjcComp : UInt16 := 0x2d
def pppVjcUncomp : UInt16 := 0x2f
def pppLcp : UInt16 := 0xc021

/-! ## The check sequence -/

def pppInitfcs : UInt16 := 0xffff
def pppGoodfcs : UInt16 := 0xf0b8

def fcstab : List UInt16 := [
  0x0000, 0x1189, 0x2312, 0x329b, 0x4624, 0x57ad, 0x6536, 0x74bf, 0x8c48, 0x9dc1,
  0xaf5a, 0xbed3, 0xca6c, 0xdbe5, 0xe97e, 0xf8f7, 0x1081, 0x0108, 0x3393, 0x221a,
  0x56a5, 0x472c, 0x75b7, 0x643e, 0x9cc9, 0x8d40, 0xbfdb, 0xae52, 0xdaed, 0xcb64,
  0xf9ff, 0xe876, 0x2102, 0x308b, 0x0210, 0x1399, 0x6726, 0x76af, 0x4434, 0x55bd,
  0xad4a, 0xbcc3, 0x8e58, 0x9fd1, 0xeb6e, 0xfae7, 0xc87c, 0xd9f5, 0x3183, 0x200a,
  0x1291, 0x0318, 0x77a7, 0x662e, 0x54b5, 0x453c, 0xbdcb, 0xac42, 0x9ed9, 0x8f50,
  0xfbef, 0xea66, 0xd8fd, 0xc974, 0x4204, 0x538d, 0x6116, 0x709f, 0x0420, 0x15a9,
  0x2732, 0x36bb, 0xce4c, 0xdfc5, 0xed5e, 0xfcd7, 0x8868, 0x99e1, 0xab7a, 0xbaf3,
  0x5285, 0x430c, 0x7197, 0x601e, 0x14a1, 0x0528, 0x37b3, 0x263a, 0xdecd, 0xcf44,
  0xfddf, 0xec56, 0x98e9, 0x8960, 0xbbfb, 0xaa72, 0x6306, 0x728f, 0x4014, 0x519d,
  0x2522, 0x34ab, 0x0630, 0x17b9, 0xef4e, 0xfec7, 0xcc5c, 0xddd5, 0xa96a, 0xb8e3,
  0x8a78, 0x9bf1, 0x7387, 0x620e, 0x5095, 0x411c, 0x35a3, 0x242a, 0x16b1, 0x0738,
  0xffcf, 0xee46, 0xdcdd, 0xcd54, 0xb9eb, 0xa862, 0x9af9, 0x8b70, 0x8408, 0x9581,
  0xa71a, 0xb693, 0xc22c, 0xd3a5, 0xe13e, 0xf0b7, 0x0840, 0x19c9, 0x2b52, 0x3adb,
  0x4e64, 0x5fed, 0x6d76, 0x7cff, 0x9489, 0x8500, 0xb79b, 0xa612, 0xd2ad, 0xc324,
  0xf1bf, 0xe036, 0x18c1, 0x0948, 0x3bd3, 0x2a5a, 0x5ee5, 0x4f6c, 0x7df7, 0x6c7e,
  0xa50a, 0xb483, 0x8618, 0x9791, 0xe32e, 0xf2a7, 0xc03c, 0xd1b5, 0x2942, 0x38cb,
  0x0a50, 0x1bd9, 0x6f66, 0x7eef, 0x4c74, 0x5dfd, 0xb58b, 0xa402, 0x9699, 0x8710,
  0xf3af, 0xe226, 0xd0bd, 0xc134, 0x39c3, 0x284a, 0x1ad1, 0x0b58, 0x7fe7, 0x6e6e,
  0x5cf5, 0x4d7c, 0xc60c, 0xd785, 0xe51e, 0xf497, 0x8028, 0x91a1, 0xa33a, 0xb2b3,
  0x4a44, 0x5bcd, 0x6956, 0x78df, 0x0c60, 0x1de9, 0x2f72, 0x3efb, 0xd68d, 0xc704,
  0xf59f, 0xe416, 0x90a9, 0x8120, 0xb3bb, 0xa232, 0x5ac5, 0x4b4c, 0x79d7, 0x685e,
  0x1ce1, 0x0d68, 0x3ff3, 0x2e7a, 0xe70e, 0xf687, 0xc41c, 0xd595, 0xa12a, 0xb0a3,
  0x8238, 0x93b1, 0x6b46, 0x7acf, 0x4854, 0x59dd, 0x2d62, 0x3ceb, 0x0e70, 0x1ff9,
  0xf78f, 0xe606, 0xd49d, 0xc514, 0xb1ab, 0xa022, 0x92b9, 0x8330, 0x7bc7, 0x6a4e,
  0x58d5, 0x495c, 0x3de3, 0x2c6a, 0x1ef1, 0x0f78]

/-- `PPP_FCS`. -/
def pppFcs (fcs : UInt16) (c : UInt8) : UInt16 :=
  (fcs >>> 8) ^^^ fcstab.getD ((fcs ^^^ c.toUInt16) &&& 0xff).toNat 0

/-- `pppfcs`. -/
def pppfcs (fcs : UInt16) (cp : List UInt8) : UInt16 := cp.foldl pppFcs fcs

/-! ## The map -/

/-- `ESCAPE_P`. -/
def escapeP (asyncmap : ExtAccm) (c : UInt8) : Bool :=
  asyncmap (c >>> 5).toNat &&& ((1 : UInt32) <<< (c &&& 0x1f).toUInt32) != 0

/-- What `pppopen` puts into `sc_asyncmap`. -/
def pppopenMap : ExtAccm := fun i =>
  if i = 0 then 0xffffffff else if i = 3 then 0x60000000 else 0

/-- The two ways to set the map. -/
inductive MapIoctl where
  | sasyncmap (map : UInt32)
  | sxasyncmap (map : ExtAccm)

/-- The two cases of `ppptioctl`. -/
def ppptioctl (asyncmap : ExtAccm) : MapIoctl → ExtAccm
  | .sasyncmap map => fun i => if i = 0 then map else asyncmap i
  | .sxasyncmap map => fun i =>
      if i = 1 then 0
      else if i = 2 then map 2 &&& ~~~ 0x40000000
      else if i = 3 then map 3 ||| 0x60000000
      else map i

/-! ## The line -/

/-- How the device answers: how many of so many octets the next `write` takes
(`none` is an error), and what `FIONWRITE` says. Both may depend on how many
writes there have been. -/
structure Tty where
  write : Nat → Nat → Option Nat
  nwrite : Nat → Nat

/-- One `write`: how many octets it was given, and those that the device took. -/
structure Write where
  asked : Nat
  took : List UInt8

/-- The writes there have been. -/
abbrev Line := List Write

/-- What the device got. -/
def Line.octets (line : Line) : List UInt8 := line.flatMap Write.took

/-- `write`. -/
def Tty.put (tty : Tty) (line : Line) (buf : List UInt8) : Option Nat × Line :=
  match tty.write line.length buf.length with
  | none => (none, line ++ [⟨buf.length, []⟩])
  | some k => (some (min k buf.length), line ++ [⟨buf.length, buf.take k⟩])

/-! ## Output -/

/-- The output side of `struct ppp_softc`. -/
structure Out where
  compProt : Bool
  compAc : Bool
  compTcp : Bool
  noTcpCcid : Bool
  asyncmap : ExtAccm
  comp : SlCompress
  fastq : List Mbufs
  snd : List Mbufs
  outm : Option Mbufs
  outfcs : UInt16
  line : Line

/-- What `ppp_dequeue` goes on with after the compression of TCP/IP headers. -/
structure Dequeued where
  m : List UInt8
  next : Mbufs
  protocol : UInt16
  comp : SlCompress

/-- The case `PPP_IP` of `ppp_dequeue`. The packet's own header may start in the
first mbuf or in the next one. -/
def pppVjc (sc : Out) (m : List UInt8) (next : Mbufs) (protocol : UInt16) : Dequeued :=
  let same : Dequeued := ⟨m, next, protocol, sc.comp⟩
  if protocol ≠ pppIp ∨ sc.compTcp = false then same
  else
    let hdr := m.take pppHdrlen
    let (body, rest) : List UInt8 × Mbufs :=
      if m.length ≤ pppHdrlen then (next.headD [], next.tail) else (m.drop pppHdrlen, next)
    let mLen := if m.length ≤ pppHdrlen then body.length else m.length
    if m.length ≤ pppHdrlen ∧ next = [] then same
    else if Buf.of body 9 ≠ ipprotoTcp then same
    else
      let pkt := body ++ rest.flatten
      match slCompressTcp mLen pkt sc.comp (!sc.noTcpCcid) with
      | none => same
      | some (type, out, comp) =>
          let protocol := match type with
            | .uncompressedTcp => pppVjcUncomp
            | .compressedTcp => pppVjcComp
            | _ => protocol
          let hdr := match type with
            | .compressedTcp => hdr.set 2 0
            | _ => hdr
          let hdr := hdr.set 3 protocol.toUInt8
          let body := out.take (out.length - rest.flatten.length)
          if m.length ≤ pppHdrlen then ⟨hdr, body :: rest, protocol, comp⟩
          else ⟨hdr ++ body, rest, protocol, comp⟩

/-- Compress the address/control and protocol, if possible. -/
def pppCompress (sc : Out) (cp : List UInt8) (protocol : UInt16) : List UInt8 :=
  let address := cp.getD 0 0
  let control := cp.getD 1 0
  let ac := sc.compAc && address == pppAllstations && control == pppUi &&
    protocol != pppAllstations.toUInt16 && protocol != pppLcp
  let m := if ac then cp.drop 2 else cp
  if sc.compProt && decide (protocol < 0xff) then
    -- move address/control up
    let m := if ac then m else (cp.set 2 control).set 1 address
    m.drop 1
  else m

/-- The packet taken off a queue. -/
def pppDequeued (sc : Out) (m : Mbufs) : Mbufs × Out :=
  let cp := m.headD []
  let protocol := get16 (cp.getD 2 0) (cp.getD 3 0)
  let d := pppVjc sc cp m.tail protocol
  (pppCompress sc d.m d.protocol :: d.next, { sc with comp := d.comp })

/-- `ppp_dequeue`. -/
def pppDequeue (sc : Out) : Option (Mbufs × Out) :=
  match sc.fastq with
  | m :: q => some (pppDequeued { sc with fastq := q } m)
  | [] =>
      match sc.snd with
      | m :: q => some (pppDequeued { sc with snd := q } m)
      | [] => none

/-- The loop around the `write` of octets that need no escape: what is left
undone. A write that takes only part of them is followed by one that starts with
the first of them again. -/
def sendRun (tty : Tty) (start : List UInt8) : Nat → Nat → Line → Nat × Line
  | 0, nleft, line => (nleft, line)
  | fuel + 1, nleft, line =>
      if nleft = 0 then (nleft, line)
      else
        let r := tty.put line start
        match r.1 with
        | none => (nleft, r.2)
        | some 0 => (nleft, r.2)
        | some cc => sendRun tty start fuel (nleft - min cc nleft) r.2

/-- How many bytes in the string we can handle without doing something
special. -/
def clearRun (asyncmap : ExtAccm) (start : List UInt8) : List UInt8 :=
  start.takeWhile fun c => !escapeP asyncmap c

/-- The writes for these. -/
def sendClear (tty : Tty) (run : List UInt8) (line : Line) : Nat × Line :=
  sendRun tty run run.length run.length line

/-- The two writes for an octet that needs an escape, and whether they were
done. -/
def sendEscape (tty : Tty) (c : UInt8) (line : Line) : Bool × Line :=
  let r := tty.put line [pppEscape]
  if r.1 ≠ some 1 then (false, r.2)
  else
    let r := tty.put r.2 [c ^^^ pppTrans]
    (r.1 == some 1, r.2)

/-- The loop over one mbuf: what is left of it. -/
def sendMbuf (tty : Tty) (asyncmap : ExtAccm) : Nat → List UInt8 → Line → List UInt8 × Line
  | 0, start, line => (start, line)
  | fuel + 1, start, line =>
      if start = [] then (start, line)
      else
        let run := clearRun asyncmap start
        let r := sendClear tty run line
        if r.1 ≠ 0 then (start.drop (run.length - r.1), r.2)  -- packet doesn't fit
        else
          match start.drop run.length with
          | [] => ([], r.2)
          | c :: rest =>
              let e := sendEscape tty c r.2
              if e.1 then sendMbuf tty asyncmap fuel rest e.2 else (c :: rest, e.2)

/-- An octet as it goes over the line. -/
def stuff (asyncmap : ExtAccm) (c : UInt8) : List UInt8 :=
  if escapeP asyncmap c then [pppEscape, c ^^^ pppTrans] else [c]

/-- The check sequence and the closing flag. -/
def endseq (asyncmap : ExtAccm) (outfcs : UInt16) : List UInt8 :=
  stuff asyncmap (~~~ outfcs).toUInt8 ++ (stuff asyncmap (~~~ outfcs >>> 8).toUInt8 ++ [pppFlag])

/-- The loop over the mbufs of a packet: what is left of it. -/
def sendChain (tty : Tty) (asyncmap : ExtAccm) (m : List UInt8) (next : Mbufs) (outfcs : UInt16)
    (line : Line) : Option Mbufs × UInt16 × Line :=
  let r := sendMbuf tty asyncmap m.length m line
  if r.1 ≠ [] then (some (r.1 :: next), outfcs, r.2)
  else
    match next with
    | [] => (none, outfcs, (tty.put r.2 (endseq asyncmap outfcs)).2)
    | m2 :: next => sendChain tty asyncmap m2 next (pppfcs outfcs m2) r.2
termination_by structural next

/-- Send the mbufs of a packet. Whatever is left of them, `sc_outm` ends up
cleared. -/
def sendPacket (tty : Tty) (sc : Out) (m : Mbufs) : Out :=
  let r := sendChain tty sc.asyncmap (m.headD []) m.tail sc.outfcs sc.line
  let sc := { sc with outm := r.1, outfcs := r.2.1, line := r.2.2 }
  { sc with outm := none }

/-- The body of the loop of `ppp_wrt_task`, which is also that of
`ppp_wrt_flush`; `none` if there is nothing to send. -/
def wrtPacket (tty : Tty) (sc : Out) : Option Out :=
  match sc.outm with
  | some m => some (sendPacket tty sc m)
  | none =>
      match pppDequeue sc with
      | none => none
      | some (m, sc) =>
          let line := if tty.nwrite sc.line.length = 0 then (tty.put sc.line [pppFlag]).2
            else sc.line
          some (sendPacket tty
            { sc with line := line, outfcs := pppfcs pppInitfcs (m.headD []) } m)

/-- The loop itself, with a bound on the number of packets. -/
def wrtLoop (tty : Tty) : Nat → Out → Out
  | 0, sc => sc
  | fuel + 1, sc =>
      match wrtPacket tty sc with
      | none => sc
      | some sc => wrtLoop tty fuel sc

/-- `ppp_wrt_task`, from one time it is woken up to the next. -/
def pppWrtTask (tty : Tty) (sc : Out) : Out :=
  wrtLoop tty (sc.fastq.length + sc.snd.length + 1) sc

/-! ## Input -/

/-- Room for VJ decompression. -/
def hdroff : Nat := 128

/-- The input side of `struct ppp_softc`. The mbufs from `sc_m` on are those of
`full` and then `mc`, which is the one at `sc_mc`; `got` is what went to
`ppppktin`. -/
structure In where
  rejCompAc : Bool
  rasyncmap : UInt32
  mru : Int
  comp : SlCompress
  flush : Bool
  escaped : Bool
  ilen : Int
  fcs : UInt16
  full : Mbufs
  mc : List UInt8
  got : List Mbufs

/-- A number as a `short` keeps it. -/
def toShort (n : Int) : Int := (n + 32768) % 65536 - 32768

/-- The size of the mbufs that `pppgetm` gets, by the number of packets received
and the place in the chain; `none` if it gets none. -/
abbrev Pool := Nat → Nat → Option Nat

/-- How much of an mbuf of size `size` is for data. -/
def dataSize (first : Bool) (size : Nat) : Nat :=
  if first && decide (hdroff + pppHdrlen ≤ size) then size - hdroff else size

/-- Initialize buffer on first octet received. First octet could be address or
protocol (when compressing address/control). An error is a `goto flush`. -/
def inFirst (pool : Pool) (sc : In) (c : UInt8) : Except In In :=
  if sc.ilen ≠ 0 then .ok sc
  else if pool sc.got.length 0 = none then .error sc
  else
    let sc := { sc with full := [], mc := [], fcs := pppInitfcs }
    if c = pppAllstations then .ok sc
    else if sc.rejCompAc then .error sc
    else .ok { sc with mc := [pppAllstations, pppUi], ilen := toShort (sc.ilen + 2) }

/-- Second octet is control. -/
def inControl (sc : In) (c : UInt8) : Except In In :=
  if sc.ilen = 1 ∧ c ≠ pppUi then .error sc else .ok sc

/-- Third octet is first or second (when compressing protocol) octet of
protocol; fourth octet is second octet of protocol. -/
def inProtocol (sc : In) (c : UInt8) : Except In In :=
  let sc := if sc.ilen = 2 ∧ c &&& 1 = 1 then
      { sc with mc := sc.mc ++ [0], ilen := toShort (sc.ilen + 1) }
    else sc
  if sc.ilen = 3 ∧ c &&& 1 = 0 then .error sc else .ok sc

/-- Packet beyond configured mru? -/
def inCount (sc : In) : Except In In :=
  let sc := { sc with ilen := toShort (sc.ilen + 1) }
  if sc.mru + (pppHdrlen : Int) + (pppFcslen : Int) < sc.ilen then .error sc else .ok sc

/-- Is this mbuf full? -/
def inRoom (pool : Pool) (sc : In) : Except In In :=
  let size := (pool sc.got.length sc.full.length).getD 0
  if sc.mc.length < dataSize sc.full.isEmpty size then .ok sc
  else if pool sc.got.length (sc.full.length + 1) = none then .error sc
  else .ok { sc with full := sc.full ++ [sc.mc], mc := [] }

/-- An octet of a frame, with escapes undone. -/
def inOctet (pool : Pool) (sc : In) (c : UInt8) : In :=
  let r : Except In In := do
    let sc ← inFirst pool sc c
    let sc ← inControl sc c
    let sc ← inProtocol sc c
    let sc ← inCount sc
    let sc ← inRoom pool sc
    pure { sc with mc := sc.mc ++ [c], fcs := pppFcs sc.fcs c }
  match r with
  | .ok sc => sc
  | .error sc => { sc with flush := true }

/-- Remove FCS trailer. Somewhat painful... -/
def dropFcs (full : Mbufs) (mc : List UInt8) : Mbufs :=
  let mc := mc.dropLast
  if mc = [] then full.dropLast ++ [(full.getLastD []).dropLast] else full ++ [mc.dropLast]

/-- The flag. -/
def inFlag (sc : In) : In :=
  let ilen := sc.ilen
  let sc := { sc with ilen := 0 }
  if sc.flush ∨ sc.escaped ∨ 0 < ilen ∧ sc.fcs ≠ pppGoodfcs then
    { sc with comp := (slUncompressTcp .error [] sc.comp).2, flush := false, escaped := false }
  else if ilen < (pppHdrlen : Int) + (pppFcslen : Int) then sc
  else { sc with full := [], mc := [], got := sc.got ++ [dropFcs sc.full sc.mc] }

/-- `pppinput`. -/
def pppinput (pool : Pool) (sc : In) (c : UInt8) : In :=
  if c = pppFlag then inFlag sc
  else if sc.flush then sc
  else if c < 0x20 ∧ sc.rasyncmap &&& ((1 : UInt32) <<< c.toUInt32) ≠ 0 then sc
  else if sc.escaped then inOctet pool { sc with escaped := false } (c ^^^ pppTrans)
  else if c = pppEscape then { sc with escaped := true }
  else inOctet pool sc c

end VxWorks.Ppp
