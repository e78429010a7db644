import VxWorks.Netinet.InCksum
import VxWorks.Netinet.IpOutput
import VxWorks.Netinet.SourceRoute

/-!
# Headers on the wire (ip_output.c)

`ip_output` from its first line on, down to the octets that an interface is
handed. The length of the header is in it twice, as `ip_hl` and as the variable
`hlen`, and the two need not agree: `ip_insertoptions` says how long the header
has become through a pointer, and where it returns early it says nothing; and
for a caller who has made the header himself `hlen` is computed from his `ip_hl`
after the options are in. Offsets, fragments and checksums go by `hlen`, what is
sent says `ip_hl`.

The routing between the two, with the multicast and broadcast rules, finds the
interface and may set `ip_ttl` and `ip_src`. It is a parameter, and so are the
mbufs that are to be had, the way the octets lie in them, and what an
uninitialised variable holds.
-/

namespace VxWorks.Netinet

open VxWorks.Lib

/-! ## The header -/

/-- `struct ip`; `ip_len` and `ip_off` in host order, the others as on the wire. -/
structure OutHdr where
  v : Fin 16
  hl : Fin 16
  tos : UInt8
  len : UInt16
  id : UInt16
  off : UInt16
  ttl : UInt8
  p : UInt8
  sum : UInt16
  src : UInt32
  dst : UInt32

/-- The header's first octets, with these for `ip_len`, `ip_off` and `ip_sum`. -/
def OutHdr.octets (ip : OutHdr) (len off sum : List UInt8) : List UInt8 :=
  [UInt8.ofNat (ip.v.val * 16 + ip.hl.val), ip.tos] ++ len ++ put16 ip.id ++ off ++
    [ip.ttl, ip.p] ++ sum ++ put32 ip.src ++ put32 ip.dst

/-- A packet: the header, the octets between it and the data, and the data. -/
structure OutPkt where
  ip : OutHdr
  opts : List UInt8
  data : List UInt8

/-- The octets of the packet as they lie in memory. -/
def OutPkt.image (bo : ByteOrder) (p : OutPkt) : List UInt8 :=
  p.ip.octets (bo.mem p.ip.len.toNat) (bo.mem p.ip.off.toNat) (bo.mem p.ip.sum.toNat) ++ p.opts ++
    p.data

/-- What an interface is handed: the octets up to the data, and the data. -/
structure Sent where
  hdr : List UInt8
  data : List UInt8

/-! ## Options -/

/-- `IP_MAXPACKET` -/
def ipMaxpacket : Nat := 65535

/-- `ip_insertoptions`, with what it writes to `phlen` if it does; `mbuf` is whether `mHdrClGet`
succeeds. -/
def ipInsertoptions (mbuf : Bool) (opt : OptMbuf) (p : OutPkt) : OutPkt × Option Int :=
  let optlen := (opt.len + 0x100000000 - 4) % 0x100000000
  if ipMaxpacket < (optlen + p.ip.len.toNat) % 0x100000000 then (p, none)
  else
    let dst := opt.data.u32 0
    let ip := if dst = 0 then p.ip else { p.ip with dst }
    if !mbuf then ({ p with ip }, none)
    else
      ({ ip := { ip with len := ip.len + UInt16.ofNat optlen }
         opts := opt.data.slice 4 optlen ++ p.opts
         data := p.data }, some (20 + optlen))

/-- A call: the packet, the options, `flags & (IP_FORWARDING | IP_RAWOUTPUT)`, whether there is an
mbuf for the header, and what `len` holds before it is written. -/
structure OutCall where
  pkt : OutPkt
  opt : Option OptMbuf
  raw : Bool
  mbuf : Bool
  len : Int

/-- The header is completed, or `hlen` taken from it; `id` is the next `ip_id`. -/
def OutPkt.complete (p : OutPkt) (raw : Bool) (id : UInt16) (hlen : Int) : OutPkt × Int :=
  if raw then (p, 4 * p.ip.hl.val)
  else
    ({ p with ip := { p.ip with v := 4, off := p.ip.off &&& 0x4000, id,
                                hl := Fin.ofNat 16 (hlen / 4 % 16).toNat } }, hlen)

/-- The packet with its options, and what is written to `len`; `hlen` is 20 to begin with. -/
def OutCall.inserted (c : OutCall) : OutPkt × Option Int :=
  match c.opt with
  | none => (c.pkt, some 20)
  | some opt => ipInsertoptions c.mbuf opt c.pkt

/-- Up to the routing: the packet and `hlen`. -/
def ipOutputHead (id : UInt16) (c : OutCall) : OutPkt × Int :=
  c.inserted.1.complete c.raw id (c.inserted.2.getD c.len)

/-! ## Sending -/

/-- How a row of octets lies in mbufs. -/
structure Layout where
  mbufs : List UInt8 → List PlacedMbuf
  whole : ∀ l, chainData (mbufs l) = l

/-- The machine, `_ipCfgFlags & IP_DO_CHECKSUM_SND`, and the mbufs. -/
structure OutHost where
  bo : ByteOrder
  cksumSnd : Bool
  layout : Layout

/-- What `ip_sum` has in memory once the checksum of `hlen` octets is in it. -/
def OutHost.cksum (host : OutHost) (l : List UInt8) (hlen : Int) : List UInt8 :=
  host.bo.mem
    (if host.cksumSnd then (inCksum host.bo (host.layout.mbufs l) hlen.toNat).toNat else 0)

/-- A packet as it is handed to an interface: `ip_len` and `ip_off` converted, the checksum
computed. -/
def OutHost.send (host : OutHost) (p : OutPkt) (hlen : Int) : Sent :=
  let hdr := fun sum => p.ip.octets (put16 p.ip.len) (put16 p.ip.off) sum ++ p.opts
  ⟨hdr (host.cksum (hdr [0, 0] ++ p.data) hlen), p.data⟩

/-- The fragment of `len` octets at `off`, under a header with the options `opts`, whose length is
`mhlen`. That `hlen > sizeof (struct ip)` is asked without sign. -/
def OutHost.fragment (host : OutHost) (p : OutPkt) (hlen : Int) (opts : List UInt8) (off len : Int)
    (more : Bool) : Sent :=
  let mhlen := 20 + opts.length
  let ip := if 20 < hlen % 0x100000000 then { p.ip with hl := Fin.ofNat 16 (mhlen / 4) } else p.ip
  let ipOff := UInt16.ofNat (((off - hlen) / 8 + clearBit p.ip.off.toNat ipMF) % 65536).toNat
  let ipOff := if hasBit p.ip.off.toNat ipMF then ipOff ||| 0x2000 else ipOff
  let ipOff := if more then ipOff ||| 0x2000 else ipOff
  let data := ((p.image host.bo).drop off.toNat).take len.toNat
  host.send ⟨{ ip with len := UInt16.ofNat (len + mhlen).toNat, off := ipOff }, opts, data⟩ mhlen

/-- The loop behind the first fragment. -/
def OutHost.fragments (host : OutHost) (net : OutNet) (p : OutPkt) (hlen len : Int) :
    Nat → Int → Except SendError (List Sent)
  | 0, _ => .ok []
  | n + 1, off =>
      if off < p.ip.len.toNat then
        if net.mbuf off.toNat then
          let area := (p.opts ++ p.data).take (4 * p.ip.hl.val - 20)
          match if 20 < hlen % 0x100000000 then ipOptcopy net.beyond area else some [] with
          | none => .error .stuck
          | some opts =>
              let last : Bool := p.ip.len.toNat ≤ off + len
              let len' := if last then p.ip.len.toNat - off else len
              if net.copy off.toNat then
                (host.fragments net p hlen len n (off + len')).map
                  (host.fragment p hlen opts off len' (!last) :: ·)
              else .error .enobufs
        else .error .enobufs
      else .ok []

/-- `m_adj` of `-n`, for a packet with its header. -/
def OutPkt.adj (p : OutPkt) (n : Nat) : OutPkt :=
  { p with opts := p.opts.take (p.opts.length + p.data.length - n)
           data := p.data.take (p.data.length - n) }

/-- From the label `sendit` on. -/
def OutHost.sendit (host : OutHost) (net : OutNet) (p : OutPkt) (hlen : Int) :
    Except SendError (List Sent) :=
  let len := ((net.mtu : Int) - hlen) / 8 * 8
  if p.ip.len.toNat ≤ net.mtu then .ok [host.send p hlen]
  else if p.ip.off &&& 0x4000 ≠ 0 then .error .emsgsize
  else if len < 8 then .error .emsgsize
  else
    (host.fragments net p hlen len p.ip.len.toNat (hlen + len)).map fun frags =>
      let q := p.adj (p.ip.len.toNat - (hlen + len)).toNat
      host.send { q with ip := { q.ip with len := UInt16.ofNat (hlen + len).toNat
                                           off := q.ip.off ||| 0x2000 } } hlen :: frags

/-- What the routing finds: the interface, the values of `ip_ttl` and `ip_src`, whether a copy is
looped back, what `_mCastRouteFwdHook` leaves of the header where none is, and whether the packet is
sent at all. -/
structure OutRoute where
  net : OutNet
  ttl : UInt8
  src : UInt32
  looped : Bool
  forwarded : OutHdr → OutHdr
  sent : Bool

/-- `ip_mloopback` -/
def OutHost.mloopback (host : OutHost) (p : OutPkt) : Sent := host.send p (4 * p.ip.hl.val)

/-- `ip_output`: all that is handed to interfaces. The routing may find no way, and then there is
nothing. -/
def OutHost.ipOutput (host : OutHost) (id : UInt16) (route : OutHdr → Option OutRoute)
    (c : OutCall) : List Sent :=
  let (p, hlen) := ipOutputHead id c
  match route p.ip with
  | none => []
  | some found =>
      let p := { p with ip := { p.ip with ttl := found.ttl, src := found.src } }
      let looped := if found.looped then [host.mloopback p] else []
      let p := if found.looped then p else { p with ip := found.forwarded p.ip }
      if found.sent then
        match host.sendit found.net p hlen with
        | .ok sent => looped ++ sent
        | .error _ => looped
      else looped

/-! ## Consistent headers -/

/-- `ip_hl` and `ip_len` of a packet on the wire. -/
def Sent.hl (s : Sent) : Nat := (s.hdr.getD 0 0).toNat % 16

def Sent.len (s : Sent) : Nat := (get16 (s.hdr.getD 2 0) (s.hdr.getD 3 0)).toNat

/-- What a header says of itself is true. -/
structure Sent.Consistent (cksumSnd : Bool) (s : Sent) : Prop where
  hl : 4 * s.hl = s.hdr.length
  len : s.len = s.hdr.length + s.data.length
  sum : cksumSnd = true → internetCksum s.hdr = 0

/-- The header says how long it is, and `hlen` does, too. -/
structure OutPkt.Whole (p : OutPkt) (hlen : Int) : Prop where
  hlen : hlen = 20 + p.opts.length
  hl : 4 * p.ip.hl.val = 20 + p.opts.length
  len : p.ip.len.toNat = 20 + p.opts.length + p.data.length

/-- The checksum stands behind ten octets. -/
theorem octets_split (ip : OutHdr) (opts : List UInt8) :
    ∃ front back, front.length = 10 ∧ ∀ sum,
      ip.octets (put16 ip.len) (put16 ip.off) sum ++ opts = front ++ (sum ++ back) :=
  ⟨[UInt8.ofNat (ip.v.val * 16 + ip.hl.val), ip.tos] ++ put16 ip.len ++ put16 ip.id ++
      put16 ip.off ++ [ip.ttl, ip.p], put32 ip.src ++ (put32 ip.dst ++ opts), rfl,
    fun sum => by simp only [OutHdr.octets, List.append_assoc]⟩

@[simp] theorem length_octets (ip : OutHdr) (len off sum : List UInt8) :
    (ip.octets len off sum).length = 14 + len.length + off.length + sum.length := by
  simp only [OutHdr.octets, List.length_append, List.length_cons, List.length_nil, length_put16,
    length_put32]
  omega

@[simp] theorem length_mem (bo : ByteOrder) (x : Nat) : (bo.mem x).length = 2 := by
  cases bo <;> rfl

@[simp] theorem length_cksum (host : OutHost) (l : List UInt8) (hlen : Int) :
    (host.cksum l hlen).length = 2 := length_mem ..

variable {host : OutHost} {p : OutPkt} {hlen : Int}

/-- The checksum over a header whose length is right makes the header sum up to nothing. -/
theorem cksum_valid (hcksum : host.cksumSnd = true) {front back data : List UInt8}
    (heven : front.length % 2 = 0) (hall : hlen = (front ++ ([0, 0] ++ back)).length)
    (hmax : hlen ≤ 65535) :
    internetCksum (front ++ (host.cksum (front ++ ([0, 0] ++ back) ++ data) hlen ++ back)) = 0 := by
  have hnat : hlen.toNat = (front ++ ([0, 0] ++ back)).length := by
    rw [hall]
    rfl
  have hlong : hlen.toNat ≤
      (chainData (host.layout.mbufs (front ++ ([0, 0] ++ back) ++ data))).length := by
    rw [host.layout.whole, hnat]
    exact (List.prefix_append _ data).length_le
  obtain ⟨x, hx, hones, hsum⟩ := inCksum_sum host.bo
    (host.layout.mbufs (front ++ ([0, 0] ++ back) ++ data)) hlong (by omega)
  rw [host.layout.whole, hnat, List.take_left' rfl] at hones
  rw [htons_internetCksum hx hones] at hsum
  have hmem := mem_htons host.bo (internetCksum_le (front ++ ([0, 0] ++ back)))
  rw [OutHost.cksum, if_pos hcksum, hsum, hmem]
  exact internetCksum_valid heven back rfl

theorem send_consistent (h : p.Whole hlen) (host : OutHost) :
    (host.send p hlen).Consistent host.cksumSnd := by
  have hlong : (host.send p hlen).hdr.length = 20 + p.opts.length := by
    simp [OutHost.send]
  have hmax := p.ip.len.toNat_lt
  refine ⟨?_, ?_, ?_⟩
  · rw [hlong, ← h.hl, Sent.hl]
    have hfirst : (host.send p hlen).hdr.getD 0 0 = UInt8.ofNat (p.ip.v.val * 16 + p.ip.hl.val) :=
      rfl
    have hv := p.ip.v.isLt
    have hhl := p.ip.hl.isLt
    rw [hfirst, UInt8.toNat_ofNat']
    omega
  · have hfield : (host.send p hlen).len = p.ip.len.toNat := by
      show (get16 (p.ip.len >>> 8).toUInt8 p.ip.len.toUInt8).toNat = _
      rw [get16_put16]
    rw [hfield, h.len, hlong]
    rfl
  · intro hcksum
    have hhlen := h.hlen
    have hlen' := h.len
    obtain ⟨front, back, hfront, hsplit⟩ := octets_split p.ip p.opts
    have hlong' : (front ++ ([0, 0] ++ back)).length = 20 + p.opts.length := by
      rw [← hsplit]
      simp
    simp only [OutHost.send, hsplit]
    exact cksum_valid hcksum (by omega) (by omega) (by omega)

/-! ## Fragments -/

theorem optcopyLoop_length {beyond : UInt8} {n : Nat} {cp dp : List UInt8}
    (h : optcopyLoop beyond n cp = some dp) : dp.length ≤ cp.length := by
  induction n generalizing cp dp with
  | zero =>
      cases cp with
      | nil =>
          cases h
          exact Nat.le_refl _
      | cons _ _ => cases h
  | succ n ih =>
      cases cp with
      | nil =>
          cases h
          exact Nat.le_refl _
      | cons opt cp =>
          rw [optcopyLoop] at h
          dsimp only at h
          by_cases heol : opt = ipoptEol
          · rw [if_pos heol] at h
            cases h
            exact Nat.zero_le _
          rw [if_neg heol] at h
          by_cases hnop : opt = ipoptNop
          · rw [if_pos hnop, Option.map_eq_some_iff] at h
            obtain ⟨dp, hdp, rfl⟩ := h
            have hle := ih hdp
            simpa using hle
          rw [if_neg hnop] at h
          have hmin : min (cp.headD beyond).toNat (cp.length + 1) ≤ cp.length + 1 :=
            Nat.min_le_right ..
          generalize min (cp.headD beyond).toNat (cp.length + 1) = k at h hmin
          by_cases hzero : k = 0
          · rw [if_pos hzero] at h
            cases h
          rw [if_neg hzero, Option.map_eq_some_iff] at h
          obtain ⟨dp, hdp, rfl⟩ := h
          have hle := ih hdp
          rw [List.length_drop, List.length_cons] at hle
          split
          · rw [List.length_append, List.length_take, List.length_cons]
            omega
          · rw [List.length_cons]
            omega

/-- What is copied takes no more room than the options did. -/
theorem ipOptcopy_length {beyond : UInt8} {area out : List UInt8}
    (h : ipOptcopy beyond area = some out) (h4 : area.length % 4 = 0) :
    out.length % 4 = 0 ∧ out.length ≤ area.length := by
  rw [ipOptcopy, Option.map_eq_some_iff] at h
  obtain ⟨dp, hdp, rfl⟩ := h
  have hle := optcopyLoop_length hdp
  rw [List.length_append, List.length_replicate]
  omega

/-- The options of a fragment fit its header. -/
structure FragOpts (p : OutPkt) (hlen : Int) (opts : List UInt8) : Prop where
  four : opts.length % 4 = 0
  le : opts.length ≤ p.opts.length
  bare : ¬ 20 < hlen % 0x100000000 → opts = []

theorem fragOpts_copied (h : p.Whole hlen) {beyond : UInt8} {opts : List UInt8}
    (hcopy : (if 20 < hlen % 0x100000000 then
        ipOptcopy beyond ((p.opts ++ p.data).take (4 * p.ip.hl.val - 20))
      else some []) = some opts) : FragOpts p hlen opts := by
  have hhl := h.hl
  have hlen' := h.hlen
  have harea : (p.opts ++ p.data).take (4 * p.ip.hl.val - 20) = p.opts :=
    List.take_left' (by omega)
  rw [harea] at hcopy
  split_ifs at hcopy with hlong
  · obtain ⟨hfour, hle⟩ := ipOptcopy_length hcopy (by omega)
    exact ⟨hfour, hle, fun hshort => absurd hlong hshort⟩
  · cases hcopy
    exact ⟨rfl, Nat.zero_le _, fun _ => rfl⟩

theorem length_image (bo : ByteOrder) (p : OutPkt) :
    (p.image bo).length = 20 + p.opts.length + p.data.length := by
  simp [OutPkt.image]
  omega

theorem fragment_consistent (h : p.Whole hlen) (host : OutHost) {opts : List UInt8}
    (hopts : FragOpts p hlen opts) {off len : Int} (more : Bool) (hoff : 0 ≤ off) (hpos : 0 ≤ len)
    (hin : off + len ≤ p.ip.len.toNat) (hfits : len + (20 + p.opts.length) ≤ 65535) :
    (host.fragment p hlen opts off len more).Consistent host.cksumSnd := by
  have hhl := h.hl
  have hlt := p.ip.hl.isLt
  obtain ⟨hfour, hle, hbare⟩ := hopts
  have hdata : (((p.image host.bo).drop off.toNat).take len.toNat).length = len.toNat := by
    rw [List.length_take, List.length_drop, length_image, ← h.len]
    omega
  refine send_consistent ⟨rfl, ?_, ?_⟩ host
  · dsimp only
    split_ifs with hlong
    · show 4 * ((20 + opts.length) / 4 % 16) = _
      omega
    · have hshort := h.hlen
      rw [hbare hlong]
      show 4 * p.ip.hl.val = 20
      omega
  · dsimp only
    rw [hdata, UInt16.toNat_ofNat']
    omega

theorem fragments_consistent (h : p.Whole hlen) (host : OutHost) (net : OutNet) {len : Int}
    (hlong : 8 ≤ len) (hfits : len + (20 + p.opts.length) ≤ 65535) {n : Nat} {off : Int}
    (hoff : 0 ≤ off) {sent : List Sent} (hsent : host.fragments net p hlen len n off = .ok sent) :
    ∀ s ∈ sent, s.Consistent host.cksumSnd := by
  induction n generalizing off sent with
  | zero =>
      cases hsent
      exact fun _ hs => absurd hs List.not_mem_nil
  | succ n ih =>
      rw [OutHost.fragments] at hsent
      by_cases hmore : off < p.ip.len.toNat
      · rw [if_pos hmore] at hsent
        by_cases hmbuf : net.mbuf off.toNat = true
        · rw [if_pos hmbuf] at hsent
          dsimp only at hsent
          cases hcopy : (if 20 < hlen % 0x100000000 then
              ipOptcopy net.beyond ((p.opts ++ p.data).take (4 * p.ip.hl.val - 20))
            else some []) with
          | none =>
              rw [hcopy] at hsent
              cases hsent
          | some opts =>
              rw [hcopy] at hsent
              dsimp only at hsent
              have hopts := fragOpts_copied h hcopy
              obtain ⟨len', hlen', hpos', hle', hin'⟩ : ∃ len', (if decide ((p.ip.len.toNat : Int) ≤
                  off + len) = true then (p.ip.len.toNat : Int) - off else len) = len' ∧ 0 ≤ len' ∧
                  len' ≤ len ∧ off + len' ≤ p.ip.len.toNat := by
                refine ⟨_, rfl, ?_⟩
                by_cases hlast : (p.ip.len.toNat : Int) ≤ off + len
                · rw [if_pos (decide_eq_true hlast)]
                  omega
                · rw [if_neg (by simpa using hlast)]
                  omega
              rw [hlen'] at hsent
              by_cases hcpy : net.copy off.toNat = true
              · rw [if_pos hcpy] at hsent
                cases hrest : host.fragments net p hlen len n (off + len') with
                | error e =>
                    rw [hrest] at hsent
                    cases hsent
                | ok rest =>
                    rw [hrest] at hsent
                    cases hsent
                    exact List.forall_mem_cons.mpr
                      ⟨fragment_consistent h host hopts _ hoff hpos' hin' (by omega),
                        ih (by omega) hrest⟩
              · rw [if_neg hcpy] at hsent
                cases hsent
        · rw [if_neg hmbuf] at hsent
          cases hsent
      · rw [if_neg hmore] at hsent
        cases hsent
        exact fun _ hs => absurd hs List.not_mem_nil

theorem sendit_consistent (h : p.Whole hlen) (host : OutHost) (net : OutNet) {sent : List Sent}
    (hsent : host.sendit net p hlen = .ok sent) : ∀ s ∈ sent, s.Consistent host.cksumSnd := by
  have hhlen := h.hlen
  have hall := h.len
  have hmax := p.ip.len.toNat_lt
  rw [OutHost.sendit] at hsent
  dsimp only at hsent
  by_cases hsmall : p.ip.len.toNat ≤ net.mtu
  · rw [if_pos hsmall] at hsent
    cases hsent
    exact List.forall_mem_singleton.mpr (send_consistent h host)
  rw [if_neg hsmall] at hsent
  by_cases hdf : p.ip.off &&& 0x4000 ≠ 0
  · rw [if_pos hdf] at hsent
    cases hsent
  rw [if_neg hdf] at hsent
  by_cases htiny : ((net.mtu : Int) - hlen) / 8 * 8 < 8
  · rw [if_pos htiny] at hsent
    cases hsent
  rw [if_neg htiny] at hsent
  generalize hfirst : ((net.mtu : Int) - hlen) / 8 * 8 = len at hsent htiny
  cases hfrags : host.fragments net p hlen len p.ip.len.toNat (hlen + len) with
  | error e =>
      rw [hfrags] at hsent
      cases hsent
  | ok frags =>
      rw [hfrags] at hsent
      cases hsent
      refine List.forall_mem_cons.mpr ⟨?_, fragments_consistent h host net (by omega) (by omega)
        (by omega) hfrags⟩
      have hopts : (p.adj (p.ip.len.toNat - (hlen + len)).toNat).opts = p.opts :=
        List.take_of_length_le (by omega)
      have hdata : (p.adj (p.ip.len.toNat - (hlen + len)).toNat).data.length = len.toNat := by
        show (p.data.take _).length = _
        rw [List.length_take]
        omega
      refine send_consistent ⟨?_, ?_, ?_⟩ host
      · exact hhlen.trans (by rw [hopts])
      · exact h.hl.trans (by rw [hopts])
      · show (UInt16.ofNat (hlen + len).toNat).toNat = _
        rw [hopts, hdata, UInt16.toNat_ofNat']
        omega

/-! ## The call -/

/-- The packet as the caller of `ip_output` promises it: `ip_len` is its length, and its header is a
bare one, or for forwarding and raw output one that says how long it is. -/
structure OutCall.Ready (c : OutCall) : Prop where
  len : c.pkt.ip.len.toNat = 20 + c.pkt.opts.length + c.pkt.data.length
  bare : c.raw = false → c.pkt.opts = []
  hl : c.raw = true → 4 * c.pkt.ip.hl.val = 20 + c.pkt.opts.length

/-- `ip_insertoptions` inserts the options: they fit, and there is an mbuf for them. -/
def OutCall.Inserted (c : OutCall) (opt : OptMbuf) : Prop :=
  ((opt.len + 0x100000000 - 4) % 0x100000000 + c.pkt.ip.len.toNat) % 0x100000000 ≤ ipMaxpacket ∧
    c.mbuf = true

/-- Options are inserted into a bare header that `ip_output` completes, in words, and no more than a
header can have. A header that is complete already is left as it is. -/
def OutCall.Sound (c : OutCall) : Prop :=
  ∀ opt, c.opt = some opt →
    (c.Inserted opt ∧ 4 ≤ opt.len ∧ opt.len ≤ 44 ∧ opt.len % 4 = 0 ∧ (c.raw = true → opt.len = 4)) ∨
      (¬ c.Inserted opt ∧ c.raw = true)

/-- The multicast forwarding returns the packet unscathed. -/
def OutRoute.Unscathed (found : OutRoute) : Prop := ∀ ip, found.forwarded ip = ip

theorem OutCall.Inserted.fits {c : OutCall} {opt : OptMbuf} (h : c.Inserted opt)
    (hmin : 4 ≤ opt.len) (hmax : opt.len ≤ 44) :
    opt.len - 4 + c.pkt.ip.len.toNat < 65536 := by
  have hword := c.pkt.ip.len.toNat_lt
  have hfits := h.1
  have hoptlen : (opt.len + 0x100000000 - 4) % 0x100000000 = opt.len - 4 := by omega
  rw [hoptlen, Nat.mod_eq_of_lt (by omega), ipMaxpacket] at hfits
  omega

theorem insertoptions_inserted {c : OutCall} {opt : OptMbuf} (h : c.Inserted opt)
    (hmin : 4 ≤ opt.len) (hmax : opt.len ≤ 44) :
    ∃ ip : OutHdr, ip.hl = c.pkt.ip.hl ∧ ip.len = c.pkt.ip.len + UInt16.ofNat (opt.len - 4) ∧
      ipInsertoptions c.mbuf opt c.pkt =
        (⟨ip, opt.data.slice 4 (opt.len - 4) ++ c.pkt.opts, c.pkt.data⟩,
          some (20 + ((opt.len - 4 : Nat) : Int))) := by
  obtain ⟨hfits, hmbuf⟩ := h
  have hoptlen : (opt.len + 0x100000000 - 4) % 0x100000000 = opt.len - 4 := by omega
  rw [hoptlen] at hfits
  obtain ⟨ip, hip, hhl, hlen⟩ : ∃ ip : OutHdr, (if opt.data.u32 0 = 0 then c.pkt.ip
      else { c.pkt.ip with dst := opt.data.u32 0 }) = ip ∧ ip.hl = c.pkt.ip.hl ∧
        ip.len = c.pkt.ip.len := by
    refine ⟨_, rfl, ?_⟩
    split
    · exact ⟨rfl, rfl⟩
    · exact ⟨rfl, rfl⟩
  rw [ipInsertoptions]
  dsimp only
  rw [hoptlen, if_neg (Nat.not_lt.mpr hfits), hip, hmbuf]
  refine ⟨{ ip with len := ip.len + UInt16.ofNat (opt.len - 4) }, hhl, ?_, rfl⟩
  rw [hlen]

theorem insertoptions_not {c : OutCall} {opt : OptMbuf} (h : ¬ c.Inserted opt) :
    ∃ ip : OutHdr, ip.hl = c.pkt.ip.hl ∧ ip.len = c.pkt.ip.len ∧
      ipInsertoptions c.mbuf opt c.pkt = (⟨ip, c.pkt.opts, c.pkt.data⟩, none) := by
  rw [ipInsertoptions]
  dsimp only
  by_cases hlong : ipMaxpacket <
      ((opt.len + 0x100000000 - 4) % 0x100000000 + c.pkt.ip.len.toNat) % 0x100000000
  · rw [if_pos hlong]
    exact ⟨_, rfl, rfl, rfl⟩
  · have hmbuf : c.mbuf = false := by
      by_contra hcon
      exact h ⟨Nat.not_lt.mp hlong, by simpa using hcon⟩
    rw [if_neg hlong, hmbuf]
    refine ⟨_, ?_, ?_, rfl⟩
    · split
      · rfl
      · rfl
    · split
      · rfl
      · rfl

/-- A packet before `ip_output` completes its header, if it does. -/
structure OutPkt.Placed (p : OutPkt) (raw : Bool) (hlen : Int) : Prop where
  len : p.ip.len.toNat = 20 + p.opts.length + p.data.length
  hl : raw = true → 4 * p.ip.hl.val = 20 + p.opts.length
  hlen : raw = false → hlen = 20 + p.opts.length ∧ p.opts.length % 4 = 0 ∧ p.opts.length ≤ 40

theorem complete_whole {raw : Bool} (h : p.Placed raw hlen) (id : UInt16) :
    (p.complete raw id hlen).1.Whole (p.complete raw id hlen).2 := by
  have hlt := p.ip.hl.isLt
  rw [OutPkt.complete]
  cases raw with
  | true =>
      have hhl := h.hl rfl
      have hnat : ((4 * p.ip.hl.val : Nat) : Int) = (20 + p.opts.length : Nat) := by rw [hhl]
      rw [if_pos rfl]
      exact ⟨hnat, hhl, h.len⟩
  | false =>
      obtain ⟨hhlen, hfour, hmax⟩ := h.hlen rfl
      rw [if_neg Bool.false_ne_true]
      refine ⟨hhlen, ?_, h.len⟩
      show 4 * ((hlen / 4 % 16).toNat % 16) = 20 + p.opts.length
      omega

theorem ipOutputHead_of {c : OutCall} {phlen : Option Int} (h : c.inserted = (p, phlen))
    (id : UInt16) : ipOutputHead id c = p.complete c.raw id (phlen.getD c.len) := by
  rw [ipOutputHead, h]

theorem inserted_some {c : OutCall} {opt : OptMbuf} (h : c.opt = some opt) :
    c.inserted = ipInsertoptions c.mbuf opt c.pkt := by
  rw [OutCall.inserted, h]

/-- What the head leaves says how long it is, wherever `hlen` is from. -/
theorem ipOutputHead_whole {c : OutCall} (h : c.Ready) (hsound : c.Sound) (id : UInt16) :
    (ipOutputHead id c).1.Whole (ipOutputHead id c).2 := by
  have hready := h.len
  cases hopt : c.opt with
  | none =>
      have heq : c.inserted = (c.pkt, some 20) := by rw [OutCall.inserted, hopt]
      rw [ipOutputHead_of heq]
      refine complete_whole ⟨hready, h.hl, ?_⟩ id
      intro hraw
      rw [h.bare hraw]
      exact ⟨rfl, rfl, Nat.zero_le _⟩
  | some opt =>
      rcases hsound opt hopt with ⟨hin, hmin, hmax, hfour, hnone⟩ | ⟨hout, hraw⟩
      · obtain ⟨ip, hhl, hlen, heq⟩ := insertoptions_inserted hin hmin hmax
        have hfits := hin.fits hmin hmax
        have hlong : (opt.data.slice 4 (opt.len - 4) ++ c.pkt.opts).length =
            opt.len - 4 + c.pkt.opts.length := by
          rw [List.length_append, Buf.length_slice]
        rw [ipOutputHead_of ((inserted_some hopt).trans heq)]
        refine complete_whole ⟨?_, ?_, ?_⟩ id
        · show ip.len.toNat = 20 + (_ ++ _ : List UInt8).length + c.pkt.data.length
          rw [hlong, hlen, UInt16.toNat_add, UInt16.toNat_ofNat']
          omega
        · intro hraw
          have hcall := h.hl hraw
          have hempty := hnone hraw
          show 4 * ip.hl.val = 20 + (_ ++ _ : List UInt8).length
          rw [hlong, hhl]
          omega
        · intro hraw
          show 20 + ((opt.len - 4 : Nat) : Int) = 20 + ((_ ++ _ : List UInt8).length : Int) ∧
            (_ ++ _ : List UInt8).length % 4 = 0 ∧ (_ ++ _ : List UInt8).length ≤ 40
          rw [hlong, h.bare hraw, List.length_nil]
          omega
      · obtain ⟨ip, hhl, hlen, heq⟩ := insertoptions_not hout
        rw [ipOutputHead_of ((inserted_some hopt).trans heq)]
        refine complete_whole ⟨?_, ?_, ?_⟩ id
        · exact hlen ▸ hready
        · intro hraw
          exact hhl ▸ h.hl hraw
        · intro hcon
          rw [hraw] at hcon
          cases hcon

theorem mloopback_consistent (h : p.Whole hlen) (host : OutHost) :
    (host.mloopback p).Consistent host.cksumSnd :=
  send_consistent ⟨by have := h.hl; omega, h.hl, h.len⟩ host

/-- What `ip_output` hands to an interface, whole or in fragments, or looped back, says how long its
header and how long it is, and its checksum is right over the header where checksums are
computed. -/
theorem ip_output_consistent {c : OutCall} (h : c.Ready) (hsound : c.Sound) (host : OutHost)
    (id : UInt16) {route : OutHdr → Option OutRoute}
    (hroute : ∀ ip found, route ip = some found → found.Unscathed) :
    ∀ s ∈ host.ipOutput id route c, s.Consistent host.cksumSnd := by
  have hhead := ipOutputHead_whole h hsound id
  generalize hp : (ipOutputHead id c).1 = p at hhead
  generalize hh : (ipOutputHead id c).2 = hlen at hhead
  have heq : ipOutputHead id c = (p, hlen) := by rw [← hp, ← hh]
  rw [OutHost.ipOutput, heq]
  dsimp only
  cases hfound : route p.ip with
  | none => exact fun _ hs => absurd hs List.not_mem_nil
  | some found =>
      dsimp only
      rw [hroute _ _ hfound, ite_self]
      -- the routing leaves `ip_hl` and `ip_len` as they are
      have hsent : ({ p with ip := { p.ip with ttl := found.ttl, src := found.src } } : OutPkt).Whole
          hlen := ⟨hhead.hlen, hhead.hl, hhead.len⟩
      generalize ({ p with ip := { p.ip with ttl := found.ttl, src := found.src } } : OutPkt) = q
        at hsent
      have hlooped : ∀ s ∈ if found.looped = true then [host.mloopback q] else [],
          s.Consistent host.cksumSnd := by
        split
        · exact List.forall_mem_singleton.mpr (mloopback_consistent hsent host)
        · exact fun _ hs => absurd hs List.not_mem_nil
      split
      · cases hall : host.sendit found.net q hlen with
        | error e => exact hlooped
        | ok sent =>
            exact List.forall_mem_append.mpr ⟨hlooped, sendit_consistent hsent host found.net hall⟩
      · exact hlooped

/-- Octets in one mbuf. -/
def Layout.single : Layout := ⟨fun l => [⟨0, l⟩], fun l => List.append_nil l⟩

/-- A way out for everything, through an interface for 1500 octets. -/
def wayOut (ip : OutHdr) : Option OutRoute :=
  some ⟨⟨1500, fun _ => true, fun _ => true, 0⟩, ip.ttl, ip.src, false, id, true⟩

/-- Four octets under a skeletal header. -/
def skeletal : OutPkt :=
  ⟨⟨0, 0, 0, 24, 0, 0, 64, 17, 0, 0x0a000001, 0x0a000002⟩, [], [1, 2, 3, 4]⟩

theorem ip_output_consistent_options :
    let c : OutCall := ⟨skeletal, some ⟨8, Buf.of [0, 0, 0, 0, 148, 4, 0, 0]⟩, false, true, 0⟩
    let sent := OutHost.ipOutput ⟨.little, true, .single⟩ 7 wayOut c
    sent.map (fun s => (s.hl, s.len)) = [(6, 28)] ∧ ∀ s ∈ sent, s.Consistent true := by
  have hready : OutCall.Ready
      ⟨skeletal, some ⟨8, Buf.of [0, 0, 0, 0, 148, 4, 0, 0]⟩, false, true, 0⟩ :=
    ⟨rfl, fun _ => rfl, fun hraw => absurd hraw Bool.false_ne_true⟩
  refine ⟨by decide +kernel, ip_output_consistent hready ?_ _ _ ?_⟩
  · intro opt hopt
    cases hopt
    exact .inl ⟨⟨by decide, rfl⟩, by decide, by decide, by decide,
      fun hraw => absurd hraw Bool.false_ne_true⟩
  · intro ip found hfound
    cases hfound
    exact fun _ => rfl

/-- Where checksums are not computed there is none. And where there is no mbuf for the options the
header says whatever `len` has held. -/
theorem ip_output_inconsistent :
    (∃ s ∈ OutHost.ipOutput ⟨.little, false, .single⟩ 7 wayOut ⟨skeletal, none, false, true, 0⟩,
        ¬ s.Consistent true) ∧
      ∃ s ∈ OutHost.ipOutput ⟨.little, true, .single⟩ 7 wayOut
          ⟨skeletal, some ⟨8, Buf.of [0, 0, 0, 0, 148, 4, 0, 0]⟩, false, false, 24⟩,
        ¬ s.Consistent true := by
  refine ⟨⟨_, .head _, ?_⟩, ⟨_, .head _, ?_⟩⟩
  · intro h
    have hsum := h.sum rfl
    revert hsum
    decide +kernel
  · intro h
    have hhl := h.hl
    revert hhl
    decide +kernel

end VxWorks.Netinet
