import VxWorks.Netinet.IpSend
import VxWorks.Netinet.OptionBounds

/-!
# The options of an ICMP reply (ip_icmp.c)

A request that came by a source route is answered by the same route, and what recorded a route,
took timestamps or had a security level is put behind it. The route is a block of `ip_srcroute`, and
with its NOP that is one octet longer than the option it was made from; each of the others is copied
as it stands. Together they may be longer than the options of the request, and than a header can
say.

What `in_canforward`, the addresses of the interfaces and the mbuf pools answer is a parameter, and
so is what `ip_output` has in an uninitialised variable. The memory behind the header is a buffer
that begins at the first option; the message is here as `icmp_send` leaves it.
-/

namespace VxWorks.Netinet

open VxWorks.Lib

/-! ## icmp_reflect -/

def ipoptSecurity : UInt8 := 130

/-- The options that are copied into the reply. -/
def ipoptReflected (opt : UInt8) : Bool := opt = ipoptRr ∨ opt = ipoptTs ∨ opt = ipoptSecurity

/-- `bcopy` to the end of the block. -/
def OptMbuf.push (opts : OptMbuf) (l : List UInt8) : OptMbuf :=
  ⟨opts.len + l.length, opts.data.putAt opts.len l⟩

/-- `len`, for the option at `cp`. -/
def optLenAt (b : Buf) (cp : Nat) : Nat := if b cp = ipoptNop then 1 else (b (cp + 1)).toNat

/-- The loop over the options of the request. A round takes at least one of the `cnt` octets. -/
def reflectLoop (b : Buf) : Nat → Nat → Nat → OptMbuf → OptMbuf
  | 0, _, _, opts => opts
  | fuel + 1, cp, cnt, opts =>
      if cnt = 0 ∨ b cp = ipoptEol then opts
      else
        let len := optLenAt b cp
        if len = 0 ∨ cnt < len then opts
        else
          reflectLoop b fuel (cp + len) (cnt - len)
            (if ipoptReflected (b cp) then opts.push (b.slice cp len) else opts)

/-- "Terminate & pad, if necessary" -/
def OptMbuf.pad (opts : OptMbuf) : OptMbuf :=
  let cnt := opts.len % 4
  if cnt = 0 then opts else opts.push (List.replicate (4 - cnt) ipoptEol)

/-- A request: its header, the memory behind the header, and the message. -/
structure IcmpRequest where
  ip : OutHdr
  after : Buf
  msg : List UInt8

/-- Whether the source can be answered, the address and the `ip_ttl` of the answer, what the pools
have for `ip_srcroute`, for `icmp_reflect` and for `ip_insertoptions`, and `len` of `ip_output`. -/
structure ReflectHost where
  returnable : Bool
  src : UInt32
  ttl : UInt8
  routeMbuf : Option Buf
  optMbuf : Option Buf
  outMbuf : Bool
  len : Int

/-- `optlen` -/
def IcmpRequest.optlen (req : IcmpRequest) : Nat := 4 * req.ip.hl.val - 20

/-- `opts`, for a request with options. -/
def reflectOpts (host : ReflectHost) (s : SrcRoute) (req : IcmpRequest) : Option OptMbuf :=
  let opts :=
    match (ipSrcroute host.routeMbuf s).1 with
    | some opts => some opts
    | none => host.optMbuf.map fun m : Buf => ⟨4, m.set32 0 0⟩
  opts.map fun opts => (reflectLoop req.after req.optlen 0 req.optlen opts).pad

/-- `icmp_reflect` and `icmp_send`, to the call of `ip_output`. -/
def icmpReflect (host : ReflectHost) (s : SrcRoute) (req : IcmpRequest) : Option OutCall :=
  if host.returnable = false then none
  else
    let ip := { req.ip with dst := req.ip.src, src := host.src, ttl := host.ttl }
    if req.optlen = 0 then some ⟨⟨ip, [], req.msg⟩, none, false, host.outMbuf, host.len⟩
    else
      let ip := { ip with len := ip.len - UInt16.ofNat req.optlen, hl := 5 }
      some ⟨⟨ip, [], req.msg⟩, reflectOpts host s req, false, host.outMbuf, host.len⟩

/-! ## How long the options are -/

/-- The options of the request, with their lengths, up to the end of the list or to one that does
not fit. -/
def optionsAt (b : Buf) : Nat → Nat → Nat → List (UInt8 × Nat)
  | 0, _, _ => []
  | fuel + 1, cp, cnt =>
      if cnt = 0 ∨ b cp = ipoptEol then []
      else
        let len := optLenAt b cp
        if len = 0 ∨ cnt < len then [] else (b cp, len) :: optionsAt b fuel (cp + len) (cnt - len)

def reflectedLen (l : List (UInt8 × Nat)) : Nat :=
  ((l.filter fun o => ipoptReflected o.1).map Prod.snd).sum

/-- Up to the next multiple of four. -/
def pad4 (n : Nat) : Nat := (n + 3) / 4 * 4

/-- The octets of the source route in the reply; nothing where there is no mbuf for options. -/
def routeLen (host : ReflectHost) (s : SrcRoute) : Option Nat :=
  if s.nhops ≠ 0 ∧ host.routeMbuf.isSome then some (4 + 4 * s.nhops)
  else if host.optMbuf.isSome then some 0
  else none

/-- The header of a packet says how long it is, and no more than 40 octets of it are options. -/
structure OutPkt.Legal (p : OutPkt) : Prop where
  opts : p.opts.length ≤ 40
  hl : 4 * p.ip.hl.val = 20 + p.opts.length

/-- The options of the reply are not too long. Where they cannot be put in, for want of an mbuf or
because the packet is too long with them, it depends on what was in `len`. -/
def ReplyFits (host : ReflectHost) (s : SrcRoute) (req : IcmpRequest) : Prop :=
  req.optlen ≠ 0 →
    ∀ n ∈ routeLen host s,
      let optlen := pad4 (n + reflectedLen (optionsAt req.after req.optlen 0 req.optlen)) %
        0x100000000
      if ipMaxpacket <
          (optlen + (req.ip.len - UInt16.ofNat req.optlen).toNat) % 0x100000000 ∨
          host.outMbuf = false then
        host.len / 4 % 16 = 5
      else optlen ≤ 40

section

variable {host : ReflectHost} {s : SrcRoute} {req : IcmpRequest} {b : Buf}

theorem reflectLoop_len (b : Buf) (fuel cp cnt : Nat) (opts : OptMbuf) :
    (reflectLoop b fuel cp cnt opts).len = opts.len + reflectedLen (optionsAt b fuel cp cnt) := by
  induction fuel generalizing cp cnt opts with
  | zero => rfl
  | succ fuel ih =>
      rw [reflectLoop, optionsAt]
      split
      · rfl
      dsimp only
      split
      · rfl
      · rw [ih]
        cases hopt : ipoptReflected (b cp) with
        | false => simp [reflectedLen, hopt]
        | true =>
            simp [reflectedLen, hopt, OptMbuf.push, Nat.add_assoc]

theorem pad_len (opts : OptMbuf) : opts.pad.len = pad4 opts.len := by
  unfold OptMbuf.pad
  dsimp only
  rw [pad4]
  split
  · omega
  · rw [OptMbuf.push]
    dsimp only
    rw [List.length_replicate]
    omega

/-- No option is counted twice. -/
theorem reflectedLen_le (b : Buf) (fuel cp cnt : Nat) :
    reflectedLen (optionsAt b fuel cp cnt) ≤ cnt := by
  induction fuel generalizing cp cnt with
  | zero => exact Nat.zero_le _
  | succ fuel ih =>
      rw [optionsAt]
      split
      · exact Nat.zero_le _
      dsimp only
      split
      · exact Nat.zero_le _
      · next hlen =>
          have hrest := ih (cp + optLenAt b cp) (cnt - optLenAt b cp)
          cases hopt : ipoptReflected (b cp) with
          | false =>
              simp only [reflectedLen, List.filter_cons, hopt] at hrest ⊢
              simp only [Bool.false_eq_true, if_false]
              omega
          | true =>
              simp only [reflectedLen, List.filter_cons, hopt] at hrest ⊢
              simp only [if_true, List.map_cons, List.sum_cons]
              omega

theorem ipSrcroute_none (h : ¬ (s.nhops ≠ 0 ∧ host.routeMbuf.isSome)) :
    (ipSrcroute host.routeMbuf s).1 = none := by
  unfold ipSrcroute
  split
  · rfl
  · next hnhops =>
      cases hm : host.routeMbuf with
      | none => rfl
      | some m => exact absurd ⟨hnhops, by rw [hm]; rfl⟩ h

theorem ipSrcroute_len (h : s.nhops ≠ 0 ∧ host.routeMbuf.isSome) :
    ∃ opts, (ipSrcroute host.routeMbuf s).1 = some opts ∧ opts.len = 4 + 4 * s.nhops + 4 := by
  obtain ⟨hnhops, hm⟩ := h
  obtain ⟨m, hm⟩ := Option.isSome_iff_exists.mp hm
  rw [hm, ipSrcroute, if_neg hnhops]
  refine ⟨_, rfl, ?_⟩
  show s.nhops * 4 + 4 + optsiz = _
  rw [optsiz]
  omega

/-- What the block for `ip_output` has. -/
theorem reflectOpts_none (h : routeLen host s = none) : reflectOpts host s req = none := by
  rw [routeLen] at h
  split at h
  · exact absurd h (by simp)
  · next hroute =>
      split at h
      · exact absurd h (by simp)
      · next hm =>
          have hnone : host.optMbuf = none := Option.not_isSome_iff_eq_none.mp hm
          rw [reflectOpts, ipSrcroute_none hroute, hnone]
          rfl

theorem reflectOpts_len {n : Nat} (h : routeLen host s = some n) :
    ∃ opts, reflectOpts host s req = some opts ∧
      opts.len = pad4 (n + 4 + reflectedLen (optionsAt req.after req.optlen 0 req.optlen)) := by
  rw [routeLen] at h
  split at h
  · next hroute =>
      obtain ⟨opts, hopts, hlen⟩ := ipSrcroute_len hroute
      rw [reflectOpts, hopts]
      refine ⟨_, rfl, ?_⟩
      rw [pad_len, reflectLoop_len, hlen, ← Option.some.inj h]
  · next hroute =>
      split at h
      · next hm =>
          obtain ⟨m, hm⟩ := Option.isSome_iff_exists.mp hm
          rw [reflectOpts, ipSrcroute_none hroute, hm]
          refine ⟨_, rfl, ?_⟩
          rw [pad_len, reflectLoop_len, ← Option.some.inj h]
      · exact absurd h (by simp)

variable {p : OutPkt} {id : UInt16} {mbuf : Bool} {len : Int}

theorem legal_bare (hp : p.opts = []) : (ipOutputHead id ⟨p, none, false, mbuf, len⟩).1.Legal := by
  refine ⟨?_, ?_⟩
  · show p.opts.length ≤ 40
    rw [hp]
    exact Nat.zero_le 40
  · show 4 * 5 = 20 + p.opts.length
    rw [hp]
    rfl

/-- Where `hlen` is what was in `len`. -/
theorem legal_complete_iff (hp : p.opts = []) :
    (p.complete false id len).1.Legal ↔ len / 4 % 16 = 5 := by
  have hhl : (p.complete false id len).1.ip.hl.val = (len / 4 % 16).toNat % 16 := rfl
  have hopts : (p.complete false id len).1.opts = [] := hp
  constructor
  · intro h
    have hl := h.hl
    rw [hhl, hopts, List.length_nil] at hl
    omega
  · intro h
    refine ⟨?_, ?_⟩
    · rw [hopts]
      exact Nat.zero_le 40
    · rw [hhl, hopts, List.length_nil, h]
      rfl

theorem legal_inserted_iff (hp : p.opts = []) {opt : OptMbuf} {k : Nat}
    (hk : (opt.len + 0x100000000 - 4) % 0x100000000 = k) (hpad : k % 4 = 0) :
    (ipOutputHead id ⟨p, some opt, false, mbuf, len⟩).1.Legal ↔
      if ipMaxpacket < (k + p.ip.len.toNat) % 0x100000000 ∨ mbuf = false then len / 4 % 16 = 5
      else k ≤ 40 := by
  rw [ipOutputHead, OutCall.inserted]
  dsimp only
  rw [ipInsertoptions]
  dsimp only
  rw [hk]
  by_cases hlong : ipMaxpacket < (k + p.ip.len.toNat) % 0x100000000
  · rw [if_pos hlong, if_pos (.inl hlong)]
    exact legal_complete_iff hp
  rw [if_neg hlong]
  generalize (if opt.data.u32 0 = 0 then p.ip else { p.ip with dst := opt.data.u32 0 }) = ip
  cases mbuf with
  | false =>
      have hnone : ipMaxpacket < (k + p.ip.len.toNat) % 0x100000000 ∨ false = false := .inr rfl
      rw [if_pos hnone, if_pos (by decide)]
      exact legal_complete_iff hp
  | true =>
      have hsome : ¬ (ipMaxpacket < (k + p.ip.len.toNat) % 0x100000000 ∨ true = false) := by
        simpa using hlong
      rw [if_neg hsome, if_neg (by decide)]
      have hopts : (opt.data.slice 4 k ++ p.opts).length = k := by
        rw [hp, List.append_nil, Buf.length_slice]
      have hhl : (Fin.ofNat 16 ((20 + (k : Int)) / 4 % 16).toNat).val = (20 + k) / 4 % 16 := by
        show ((20 + (k : Int)) / 4 % 16).toNat % 16 = _
        omega
      constructor
      · intro h
        have hle : (opt.data.slice 4 k ++ p.opts).length ≤ 40 := h.opts
        rw [hopts] at hle
        exact hle
      · intro hle
        refine ⟨?_, ?_⟩
        · show (opt.data.slice 4 k ++ p.opts).length ≤ 40
          rw [hopts]
          exact hle
        · show 4 * (Fin.ofNat 16 ((20 + (k : Int)) / 4 % 16).toNat).val =
            20 + (opt.data.slice 4 k ++ p.opts).length
          rw [hopts, hhl]
          omega

theorem pad4_add_four (n : Nat) : pad4 (n + 4) = pad4 n + 4 := by
  rw [pad4, pad4]
  omega

end

/-! ## The replies -/

/-- The reply to a request has a header that says how long it is if and only if its options fit. -/
theorem icmp_reply_legal_iff {host : ReflectHost} {s : SrcRoute} {req : IcmpRequest} {c : OutCall}
    (h : icmpReflect host s req = some c) (id : UInt16) :
    (ipOutputHead id c).1.Legal ↔ ReplyFits host s req := by
  rw [icmpReflect] at h
  split at h
  · exact absurd h (by simp)
  dsimp only at h
  split at h
  · next hnone =>
      rw [← Option.some.inj h]
      exact ⟨fun _ hsome => absurd hnone hsome, fun _ => legal_bare rfl⟩
  · next hsome =>
      rw [← Option.some.inj h]
      cases hroute : routeLen host s with
      | none =>
          rw [reflectOpts_none hroute]
          refine ⟨?_, fun _ => legal_bare rfl⟩
          intro _ _ n hn
          rw [hroute] at hn
          exact absurd hn (by simp)
      | some n =>
          obtain ⟨opts, hopts, hlen⟩ : ∃ opts, reflectOpts host s req = some opts ∧ opts.len = _ :=
            reflectOpts_len hroute
          generalize hk : pad4 (n + reflectedLen (optionsAt req.after req.optlen 0 req.optlen)) %
            0x100000000 = k
          have hopt : (opts.len + 0x100000000 - 4) % 0x100000000 = k := by
            rw [hlen, ← hk, Nat.add_right_comm, pad4_add_four]
            omega
          have hpad : k % 4 = 0 := by
            rw [← hk, pad4]
            omega
          rw [hopts, legal_inserted_iff rfl hopt hpad, ReplyFits, hroute, ← hk]
          constructor
          · intro hfits _ m hm
            rw [← Option.some.inj hm]
            exact hfits
          · intro hfits
            exact hfits hsome n rfl

/-- Without a source route the options of the reply are no longer than those of the request. -/
theorem replyFits_of_unrouted {host : ReflectHost} {s : SrcRoute} {req : IcmpRequest}
    (hs : s.nhops = 0)
    (hroom : (pad4 (reflectedLen (optionsAt req.after req.optlen 0 req.optlen)) +
      (req.ip.len - UInt16.ofNat req.optlen).toNat) ≤ ipMaxpacket)
    (hmbuf : host.outMbuf = true) : ReplyFits host s req := by
  intro _ n hn
  have hzero : n = 0 := by
    rw [routeLen, if_neg fun h => h.1 hs] at hn
    split at hn
    · exact (Option.some.inj hn).symm
    · exact absurd hn (by simp)
  have hle := reflectedLen_le req.after req.optlen 0 req.optlen
  have hopt : req.optlen ≤ 40 := by
    have hhl := req.ip.hl.isLt
    rw [IcmpRequest.optlen]
    omega
  rw [hzero, Nat.zero_add]
  have hpad : pad4 (reflectedLen (optionsAt req.after req.optlen 0 req.optlen)) ≤ 40 := by
    rw [pad4]
    omega
  generalize pad4 (reflectedLen (optionsAt req.after req.optlen 0 req.optlen)) = k at hroom hpad
  have hk : k % 0x100000000 = k := Nat.mod_eq_of_lt (by omega)
  rw [hk]
  dsimp only
  rw [if_neg ?_]
  · exact hpad
  · rw [hmbuf, ipMaxpacket] at *
    simp only [Bool.true_eq_false, or_false]
    omega

/-- An echo request of this host's neighbour, by way of one other: a loose source route, six octets
of security and the record of a route of six hops, 40 octets together. -/
def farEcho : DooptionsRun :=
  ipDooptionsT anyRouter ⟨0, fun _ => 0⟩
    (Buf.of (fixedHeader 15 ++ [131, 7, 8, 10, 0, 0, 3] ++ [130, 6, 0xab, 0x81, 0x81, 0x80] ++
      [7, 27, 28] ++ List.replicate 24 10 ++ [8, 0, 0, 0, 0, 0, 0, 0]))

/-- What `ip_dooptions` makes of it. -/
def farRequest : IcmpRequest where
  ip := ⟨4, 15, 0, 68, 0, 0, 64, 1, 0, 0x0a000001, 0x0a000002⟩
  after := fun i => farEcho.buf (20 + i)
  msg := [0, 0, 0xff, 0xff, 0, 0, 0, 0]

def replyHost : ReflectHost := ⟨true, 0x0a000002, 64, some fun _ => 0, some fun _ => 0, true, 0⟩

/-- The route that `farEcho` has kept. -/
def farRoute : SrcRoute :=
  match farEcho.exit with
  | .next _ s => s
  | .bad _ _ => ⟨0, fun _ => 0⟩

/-- The source route alone. -/
def routedRequest : IcmpRequest where
  ip := ⟨4, 7, 0, 36, 0, 0, 64, 1, 0, 0x0a000001, 0x0a000002⟩
  after := Buf.of [131, 7, 8, 10, 0, 0, 3, 0]
  msg := [0, 0, 0xff, 0xff, 0, 0, 0, 0]

theorem icmp_reply_legal_routed :
    ∃ c, icmpReflect replyHost farRoute routedRequest = some c ∧ (ipOutputHead 1 c).1.Legal := by
  obtain ⟨c, hc⟩ : ∃ c, icmpReflect replyHost farRoute routedRequest = some c := ⟨_, rfl⟩
  refine ⟨c, hc, (icmp_reply_legal_iff hc 1).mpr ?_⟩
  intro _ n hn
  obtain rfl : 8 = n := Option.some.inj hn
  decide +kernel

/-- The reply has 44 octets of options, and its header says that it is none. -/
theorem icmp_reply_too_long :
    farEcho.exit = .next false farRoute ∧
      ∃ c, icmpReflect replyHost farRoute farRequest = some c ∧
        (ipOutputHead 1 c).1.opts.length = 44 ∧ (ipOutputHead 1 c).1.ip.hl = 0 ∧
        ¬ (ipOutputHead 1 c).1.Legal := by
  refine ⟨rfl, _, rfl, ?_, ?_, fun h => absurd h.opts ?_⟩
  · decide +kernel
  · decide +kernel
  · decide +kernel

end VxWorks.Netinet
