import VxWorks.Lib.Buffer
import VxWorks.Ppp.Layers

/-!
# The reply to an echo

`lcp_extcode` answers an Echo-Request out of the buffer it came in: the magic
number goes over the first four octets, and the rest is sent back as it is. So
that the magic number is sent in any case the length is raised to `CILEN_LONG`,
which is the length of a whole option, two octets more than the number takes.
From there on the reply mirrors the request. Below it the end of the reply is
whatever the buffer holds behind the packet.

At the other end `fsm_sdata` cuts the reply to what the peer can receive.
-/

namespace VxWorks.Ppp

open VxWorks.Lib

/-- The data of a request with our magic number in front. -/
def mirrored (magic : UInt32) (data : List UInt8) : List UInt8 := put32 magic ++ data.drop 4

namespace LcpRest

variable {σ : Type} (a : LcpRest σ) (inpacket : Buf) (l : Nat)

/-- LCP while a packet lies in the buffer, with six octets of what is behind its data. -/
def holding : LcpRest σ :=
  { a with beyond := fun _ => inpacket.slice (inpacket.u16 2).toNat cilenLong.toNat }

/-- `lcp_input`, of the first `l` octets of the buffer. -/
def inputAt (w : World (LcpLayer σ)) : World (LcpLayer σ) :=
  fsmInput a.recorded ((a.holding inpacket).callbacks a.recorded) (inpacket.take l) w

variable {a} {w : World (LcpLayer σ)} {data : List UInt8}

/-- However short the request, what it has is in the reply. -/
theorem take_echoData :
    (a.echoData data w).take data.length =
      (mirrored w.env.link.got.magicnumber data).take data.length := by
  rw [echoData, mirrored]
  rw [List.take_take, min_eq_left (le_max_left _ _)]
  by_cases h : data.length ≤ 4
  · rw [List.take_append_of_le_length (by simpa using h),
      List.take_append_of_le_length (by simpa using h)]
  · rw [List.drop_append_of_le_length (by omega), ← List.append_assoc,
      List.take_append_of_le_length (by simp; omega)]

theorem length_mirrored (magic : UInt32) (h : 4 ≤ data.length) :
    (mirrored magic data).length = data.length := by
  simp only [mirrored, List.length_append, length_put32, List.length_drop]
  omega

theorem echoData_of_long (h : cilenLong.toNat ≤ data.length) :
    a.echoData data w = mirrored w.env.link.got.magicnumber data := by
  have hsix : cilenLong.toNat = 6 := rfl
  have hmax : max data.length cilenLong.toNat = data.length := max_eq_left h
  have hall : (a.echoData data w).take data.length = a.echoData data w := by
    refine List.take_of_length_le ?_
    rw [echoData]
    rw [hmax, List.length_take]
    exact min_le_left _ _
  rw [← hall, take_echoData, List.take_of_length_le]
  rw [length_mirrored _ (by omega)]

/-- An Echo-Request on an open link is received and answered, and nothing else happens. -/
theorem inputAt_echoreq {p : CpPacket} (hp : parseHeader (inpacket.take l) = some p)
    (hcode : p.code = echoreq) (hs : w.f.state = .opened) :
    a.inputAt inpacket l w = World.record (.sent ⟨echorep, p.id,
      ((a.holding inpacket).echoData p.data w).take (w.env.link.peerMru - headerlen).toNat⟩)
        (World.record (.rcvd p) w) := by
  have hne : ∀ c : UInt8, c ≠ echoreq → p.code ≠ c := fun c hc heq => hc (heq.symm.trans hcode)
  unfold inputAt fsmInput
  rw [hp]
  dsimp only
  rw [if_neg (by show ¬ (w.f.state = _ ∨ w.f.state = _); rw [hs]; nofun)]
  unfold fsmDispatch
  rw [if_neg (hne confreq (by decide)), if_neg (hne confack (by decide)),
    if_neg (not_or.mpr ⟨hne confnak (by decide), hne confrej (by decide)⟩),
    if_neg (hne termreq (by decide)), if_neg (hne termack (by decide)),
    if_neg (hne coderej (by decide))]
  have hext : checkExt ((a.holding inpacket).callbacks a.recorded) p (World.record (.rcvd p) w) =
      (true, World.record (.sent ⟨echorep, p.id, ((a.holding inpacket).echoData p.data w).take
        (w.env.link.peerMru - headerlen).toNat⟩) (World.record (.rcvd p) w)) := by
    show (a.holding inpacket).extcode a.recorded (World.record (.rcvd p) w) p = _
    have hs' : ¬ (World.record (.rcvd p) w).f.state ≠ .opened := not_not_intro hs
    unfold extcode
    rw [if_neg (hne protrej (by decide)), if_pos hcode, if_neg hs']
    rfl
  show (let r := checkExt ((a.holding inpacket).callbacks a.recorded) p (World.record (.rcvd p) w)
    if r.1 then r.2 else _) = _
  rw [hext]
  rfl

end LcpRest

/-- An Echo-Request on an open link, with anything in the buffer behind it, is answered under
its own id. The reply has all the octets of the request, the magic number over the first
four, as far as the peer's MRU lets them through; and from `CILEN_LONG` octets on it has no
others, so that it is the same whatever lies behind the request. -/
theorem echo_reply_mirrors {σ : Type} (a : LcpRest σ) (w : World (LcpLayer σ)) (inpacket : Buf)
    (l : Nat) (p : CpPacket) (hp : parseHeader (inpacket.take l) = some p)
    (hcode : p.code = echoreq) (hs : w.f.state = .opened) :
    ∃ data,
      a.inputAt inpacket l w =
        World.record (.sent ⟨echorep, p.id, data⟩) (World.record (.rcvd p) w) ∧
      data.take p.data.length =
        ((mirrored w.env.link.got.magicnumber p.data).take p.data.length).take
          (w.env.link.peerMru - headerlen).toNat ∧
      (cilenLong.toNat ≤ p.data.length →
        data = (mirrored w.env.link.got.magicnumber p.data).take
            (w.env.link.peerMru - headerlen).toNat ∧
        (p.data.length ≤ w.env.link.peerMru - headerlen → data.length = p.data.length) ∧
        ∀ (inpacket' : Buf) (l' : Nat), parseHeader (inpacket'.take l') = some p →
          a.inputAt inpacket' l' w = a.inputAt inpacket l w) := by
  refine ⟨_, LcpRest.inputAt_echoreq inpacket l hp hcode hs, ?_, fun hlong => ⟨?_, ?_, ?_⟩⟩
  · rw [List.take_take, min_comm, ← List.take_take, LcpRest.take_echoData]
  · rw [LcpRest.echoData_of_long hlong]
  · intro hroom
    have hfour : 4 ≤ p.data.length := le_trans (by decide) hlong
    rw [LcpRest.echoData_of_long hlong, List.length_take, LcpRest.length_mirrored _ hfour]
    omega
  · intro inpacket' l' hp'
    rw [LcpRest.inputAt_echoreq inpacket' l' hp' hcode hs,
      LcpRest.inputAt_echoreq inpacket l hp hcode hs, LcpRest.echoData_of_long hlong,
      LcpRest.echoData_of_long hlong]

/-- LCP as it starts, opened by a peer with an MRU of 128. -/
def LcpRest.opening : List LcpCall :=
  [.fsm .lowerup, .fsm .open, .fsm (.input [1, 1, 0, 8, 1, 4, 0, 128]),
    .fsm (.input [2, 1, 0, 18, 1, 4, 5, 220, 5, 6, 0, 0, 0, 7, 7, 2, 8, 2])]

def LcpRest.opened (calls : List LcpCall) : World (LcpLayer Unit) :=
  run (bare.step bare.recorded) (World.start 0 default ⟨lcpInit, ()⟩) calls

/-- A request with ten octets of data is mirrored, whatever lies behind it. -/
theorem echo_reply_mirrors_ten :
    ∃ data, data = [0, 0, 0, 7, 1, 2, 3, 4, 5, 6] ∧
      ∀ inpacket' l', parseHeader (Buf.take inpacket' l') =
          some ⟨echoreq, 3, [9, 9, 9, 9, 1, 2, 3, 4, 5, 6]⟩ →
        LcpRest.bare.inputAt inpacket' l' (LcpRest.opened LcpRest.opening) =
          World.record (.sent ⟨echorep, 3, data⟩)
            (World.record (.rcvd ⟨echoreq, 3, [9, 9, 9, 9, 1, 2, 3, 4, 5, 6]⟩)
              (LcpRest.opened LcpRest.opening)) := by
  obtain ⟨data, hreply, -, hlong⟩ := echo_reply_mirrors LcpRest.bare
    (LcpRest.opened LcpRest.opening) (Buf.of [9, 3, 0, 14, 9, 9, 9, 9, 1, 2, 3, 4, 5, 6]) 14
    ⟨echoreq, 3, [9, 9, 9, 9, 1, 2, 3, 4, 5, 6]⟩ (by decide +kernel) rfl (by decide +kernel)
  obtain ⟨hdata, -, hsame⟩ := hlong (by decide)
  refine ⟨data, hdata.trans (by decide +kernel), ?_⟩
  intro inpacket' l' hp'
  rw [hsame inpacket' l' hp', hreply]

/-- A request that is longer than the peer's MRU is cut. A request with our magic number alone,
as `LcpSendEchoRequest` makes it, comes back with two octets of the buffer behind it. -/
theorem echo_reply_differs :
    (¬ ∀ calls inpacket l p, parseHeader (Buf.take inpacket l) = some p → p.code = echoreq →
      (LcpRest.opened calls).f.state = .opened →
        ∃ data, LcpRest.bare.inputAt inpacket l (LcpRest.opened calls) =
            World.record (.sent ⟨echorep, p.id, data⟩)
              (World.record (.rcvd p) (LcpRest.opened calls)) ∧
          data.length = p.data.length) ∧
    ¬ ∀ calls inpacket inpacket' l p, parseHeader (Buf.take inpacket l) = some p →
      parseHeader (Buf.take inpacket' l) = some p → p.code = echoreq →
      (LcpRest.opened calls).f.state = .opened →
        LcpRest.bare.inputAt inpacket' l (LcpRest.opened calls) =
          LcpRest.bare.inputAt inpacket l (LcpRest.opened calls) := by
  constructor
  · intro h
    obtain ⟨data, hreply, hlen⟩ := h LcpRest.opening
      (Buf.of ([9, 3, 0, 134] ++ List.replicate 130 0)) 134 ⟨echoreq, 3, List.replicate 130 0⟩
      (by decide +kernel) rfl (by decide +kernel)
    have hcut : (LcpRest.bare.inputAt (Buf.of ([9, 3, 0, 134] ++ List.replicate 130 0)) 134
        (LcpRest.opened LcpRest.opening)).log.head? =
          some (.sent ⟨echorep, 3, put32 7 ++ List.replicate 120 0⟩) := by decide +kernel
    rw [hreply] at hcut
    have hdata : data = put32 7 ++ List.replicate 120 0 := by
      simpa [World.record] using hcut
    rw [hdata] at hlen
    simp [put32] at hlen
  · intro h
    have hsame := congrArg World.log (h LcpRest.opening (Buf.of [9, 3, 0, 8, 0, 0, 0, 7])
      (Buf.of [9, 3, 0, 8, 0, 0, 0, 7, 170, 187]) 8 ⟨echoreq, 3, [0, 0, 0, 7]⟩
      (by decide +kernel) (by decide +kernel) rfl (by decide +kernel))
    revert hsame
    decide +kernel

end VxWorks.Ppp
