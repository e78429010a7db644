import Mathlib.Tactic.Common
import VxWorks.Netinet.IpInput

/-!
# IP fragmentation (ip_output.c)

`ip_output` from the label `sendit` on. A datagram that is too long for the
interface is cut into fragments of as many octets as fit, in units of eight; the
first keeps the header, and the others get the options that `ip_optcopy` copies.

What is proved of it is what a receiver needs: a fragment of a fragment of a
datagram is a fragment of the datagram (`FragOf`), and no octet gets lost on the
way (`ipOutput_covers`).
-/

namespace VxWorks.Netinet

/-- `ip_v` and `ip_hl` have four bits. -/
instance neZeroNibble : NeZero 16 := ⟨by decide⟩

/-! ## ip_optcopy -/

/-- `IPOPT_EOL` and `IPOPT_NOP`. -/
def ipoptEol : UInt8 := 0

def ipoptNop : UInt8 := 1

/-- `IPOPT_COPIED`. -/
def ipoptCopied (opt : UInt8) : Bool := 0x80 ≤ opt

/-- The loop over the options; `beyond` is the octet behind the header, which is
read as the length of an option that has none. An option of length 0 keeps the
loop where it is for good, which is `none`. -/
def optcopyLoop (beyond : UInt8) : Nat → List UInt8 → Option (List UInt8)
  | _, [] => some []
  | 0, _ :: _ => none
  | n + 1, opt :: cp =>
      if opt = ipoptEol then some []
      else if opt = ipoptNop then (optcopyLoop beyond n cp).map (ipoptNop :: ·)
      else
        let optlen := min (cp.headD beyond).toNat (cp.length + 1)
        if optlen = 0 then none
        else
          (optcopyLoop beyond n ((opt :: cp).drop optlen)).map fun dp =>
            if ipoptCopied opt then (opt :: cp).take optlen ++ dp else dp

/-- Every round takes an octet or more, so as many rounds as octets will do. -/
def ipOptcopy (beyond : UInt8) (opts : List UInt8) : Option (List UInt8) :=
  (optcopyLoop beyond opts.length opts).map fun dp =>
    dp ++ List.replicate ((4 - dp.length % 4) % 4) ipoptEol

/-! ## Fragmentation -/

/-- What a call meets: the interface's `if_mtu`, whether `mHdrClGet` and `m_copy`
succeed for the fragment at an offset, and the octet behind the header. -/
structure OutNet where
  mtu : Nat
  mbuf : Nat → Bool
  copy : Nat → Bool
  beyond : UInt8

/-- Why nothing is sent; `stuck` is not to return at all. -/
inductive SendError where
  | emsgsize
  | enobufs
  | stuck
deriving DecidableEq, Repr

/-- The fragment of the `len` octets at offset `off` of the chain, under a header of
`opts`. -/
def fragAt (p : Packet) (opts : List UInt8) (off len : Nat) : Packet :=
  let mhlen := 20 + opts.length
  let ipOff := ((off - p.ip.hlen) / 8 + clearBit p.ip.off ipMF) % 65536
  let more := hasBit p.ip.off ipMF ∨ off + len < p.ip.len
  { ip := { p.ip with hl := mhlen / 4, opts := opts, len := (len + mhlen) % 65536,
                      off := if more then setBit ipOff ipMF else ipOff }
    m := { hdr := mhlen, data := (p.m.data.drop (off - p.ip.hlen)).take len } }

/-- The loop behind the first fragment. -/
def fragLoop (net : OutNet) (p : Packet) (len : Nat) : Nat → Nat → Except SendError (List Packet)
  | 0, _ => .ok []
  | n + 1, off =>
      if off < p.ip.len then
        if net.mbuf off then
          match if 20 < p.ip.hlen then ipOptcopy net.beyond p.ip.opts else some [] with
          | none => .error .stuck
          | some opts =>
              let len' := if p.ip.len ≤ off + len then p.ip.len - off else len
              if net.copy off then
                (fragLoop net p len n (off + len')).map (fragAt p opts off len' :: ·)
              else .error .enobufs
        else .error .enobufs
      else .ok []

def ipOutput (net : OutNet) (p : Packet) : Except SendError (List Packet) :=
  let hlen := p.ip.hlen
  let len := (net.mtu - hlen) / 8 * 8
  if p.ip.len ≤ net.mtu then .ok [p]
  else if hasBit p.ip.off ipDF then .error .emsgsize
  else if len < 8 then .error .emsgsize
  else
    (fragLoop net p len p.ip.len (hlen + len)).map fun frags =>
      { ip := { p.ip with len := hlen + len, off := setBit p.ip.off ipMF }
        m := mAdj p.m (p.ip.len - (hlen + len)) } :: frags

/-- A packet that a datagram becomes on the way, through any interfaces. -/
inductive Carried (d : Packet) : Packet → Prop
  | self : Carried d d
  | hop {f : Packet} (net : OutNet) {fs : List Packet} {g : Packet} :
      Carried d f → ipOutput net f = .ok fs → g ∈ fs → Carried d g

/-! ## Options -/

/-- Options as `ip_pcbopts` and `ip_dooptions` let them through: each is as long as
it says, up to the end or to `IPOPT_EOL`. -/
inductive Options : List UInt8 → Prop
  | nil : Options []
  | eol (rest : List UInt8) : Options (ipoptEol :: rest)
  | nop {cp : List UInt8} : Options cp → Options (ipoptNop :: cp)
  | opt {o l : UInt8} {body cp : List UInt8} : o ≠ ipoptEol → o ≠ ipoptNop →
      l.toNat = body.length + 2 → Options cp → Options (o :: l :: (body ++ cp))

/-- The loop comes to an end, and what it has copied can be followed by anything
that options can be followed by. -/
theorem optcopyLoop_options {cp : List UInt8} (h : Options cp) (beyond : UInt8) {n : Nat}
    (hn : cp.length ≤ n) :
    ∃ dp, optcopyLoop beyond n cp = some dp ∧ dp.length ≤ cp.length ∧
      ∀ tail, Options tail → Options (dp ++ tail) := by
  induction h generalizing n with
  | nil => exact ⟨[], by cases n <;> rfl, Nat.le_refl _, fun _ ht => ht⟩
  | eol rest =>
      obtain ⟨n, rfl⟩ : ∃ m, n = m + 1 := ⟨n - 1, by simp at hn; omega⟩
      exact ⟨[], by simp [optcopyLoop], Nat.zero_le _, fun _ ht => ht⟩
  | nop hcp ih =>
      obtain ⟨n, rfl⟩ : ∃ m, n = m + 1 := ⟨n - 1, by simp at hn; omega⟩
      obtain ⟨dp, hdp, hlen, htail⟩ := ih (n := n) (by simpa using hn)
      refine ⟨ipoptNop :: dp, ?_, by simpa using hlen, fun tail ht => (htail tail ht).nop⟩
      rw [optcopyLoop, if_neg (by decide), if_pos rfl, hdp]
      rfl
  | @opt o l body cp ho1 ho2 hl hcp ih =>
      obtain ⟨n, rfl⟩ : ∃ m, n = m + 1 := ⟨n - 1, by simp at hn; omega⟩
      have hle : cp.length ≤ n := by simp at hn; omega
      obtain ⟨dp, hdp, hlen, htail⟩ := ih hle
      have hmin : min ((l :: (body ++ cp)).headD beyond).toNat ((l :: (body ++ cp)).length + 1) =
          body.length + 2 := by
        simp [hl]
      have hdrop : (o :: l :: (body ++ cp)).drop (body.length + 2) = cp := by simp
      have htake : (o :: l :: (body ++ cp)).take (body.length + 2) = o :: l :: body := by simp
      refine ⟨if ipoptCopied o then (o :: l :: body) ++ dp else dp, ?_, ?_, ?_⟩
      · rw [optcopyLoop, if_neg ho1, if_neg ho2]
        simp only [hmin, hdrop, htake, hdp]
        rw [if_neg (by omega)]
        rfl
      · split <;> simp <;> omega
      · intro tail ht
        split
        · have := Options.opt ho1 ho2 hl (htail tail ht)
          simpa using this
        · exact htail tail ht

theorem options_replicate_eol (n : Nat) : Options (List.replicate n ipoptEol) := by
  cases n with
  | zero => exact .nil
  | succ n => exact .eol _

theorem ipOptcopy_options {opts : List UInt8} (h : Options opts) (h4 : opts.length % 4 = 0)
    (beyond : UInt8) :
    ∃ out, ipOptcopy beyond opts = some out ∧ Options out ∧ out.length ≤ opts.length ∧
      out.length % 4 = 0 := by
  obtain ⟨dp, hdp, hlen, htail⟩ := optcopyLoop_options h beyond (Nat.le_refl _)
  refine ⟨_, by rw [ipOptcopy, hdp]; rfl, htail _ (options_replicate_eol _), ?_, ?_⟩
  · rw [List.length_append, List.length_replicate]
    omega
  · rw [List.length_append, List.length_replicate]
    omega

/-! ## Fragments of a datagram -/

/-- The offset of a packet's data in its datagram. -/
def Packet.fragStart (p : Packet) : Nat := 8 * (p.ip.off % 8192)

/-- A datagram as `ip_output` gets it to send, not a fragment itself. -/
structure Sendable (d : Packet) : Prop where
  hl_le : d.ip.hl ≤ 15
  hlen : d.ip.hlen = 20 + d.ip.opts.length
  opts : Options d.ip.opts
  hdr : d.m.hdr = d.ip.hlen
  len : d.ip.len = d.ip.hlen + d.m.data.length
  fits : d.ip.len ≤ 65535
  off_lt : d.ip.off < 65536
  whole : d.ip.off % 16384 = 0

/-- A packet that carries some of the data of `d`, and says which. -/
structure FragOf (d f : Packet) : Prop where
  key : f.ip.key = d.ip.key
  hl_le : f.ip.hl ≤ d.ip.hl
  hlen : f.ip.hlen = 20 + f.ip.opts.length
  opts : Options f.ip.opts
  hdr : f.m.hdr = f.ip.hlen
  len : f.ip.len = f.ip.hlen + f.m.data.length
  flags : f.ip.off / 16384 = d.ip.off / 16384
  slice : f.m.data <+: d.m.data.drop f.fragStart
  stop : f.fragStart + f.m.data.length ≤ d.m.data.length
  more : hasBit f.ip.off ipMF = true ↔ f.fragStart + f.m.data.length < d.m.data.length
  lead : f.fragStart = 0 → f.ip.hl = d.ip.hl

theorem hasBit_ipMF {x : Nat} : hasBit x ipMF = true ↔ x / 8192 % 2 = 1 :=
  decide_eq_true_iff

theorem Sendable.fragOf {d : Packet} (h : Sendable d) : FragOf d d := by
  have hstart : d.fragStart = 0 := by
    have := h.whole
    rw [Packet.fragStart]
    omega
  refine ⟨rfl, Nat.le_refl _, h.hlen, h.opts, h.hdr, h.len, rfl, ?_, ?_, ?_, fun _ => rfl⟩
  · rw [hstart]
    exact List.prefix_refl _
  · omega
  · rw [hasBit_ipMF, hstart]
    have := h.whole
    omega

section

variable {d f : Packet}

/-- What the offset field of a later fragment says. -/
theorem fragAt_off {opts : List UInt8} {off len : Nat}
    (hsum : f.fragStart + (off - f.ip.hlen) < 65536) (h8 : (off - f.ip.hlen) % 8 = 0)
    (hoff : f.ip.off < 65536) :
    (fragAt f opts off len).fragStart = f.fragStart + (off - f.ip.hlen) ∧
      (fragAt f opts off len).ip.off / 16384 = f.ip.off / 16384 ∧
      (hasBit (fragAt f opts off len).ip.off ipMF = true ↔
        hasBit f.ip.off ipMF = true ∨ off + len < f.ip.len) := by
  have hmf : ipMF = 8192 := rfl
  have hclear : clearBit f.ip.off ipMF = f.ip.off / 16384 * 16384 + f.ip.off % 8192 := by
    simp only [clearBit, hasBit, hmf, decide_eq_true_eq]
    split <;> omega
  generalize hx : (off - f.ip.hlen) / 8 + clearBit f.ip.off ipMF = x
  rw [hclear] at hx
  unfold Packet.fragStart at hsum
  have hlow : x = f.ip.off / 16384 * 16384 + (f.ip.off % 8192 + (off - f.ip.hlen) / 8) := by omega
  have hlt : f.ip.off % 8192 + (off - f.ip.hlen) / 8 < 8192 := by omega
  have hset : setBit (x % 65536) ipMF = x + 8192 := by
    simp only [setBit, hasBit, hmf, decide_eq_true_eq]
    rw [if_neg (by omega)]
    omega
  have hfield : (fragAt f opts off len).ip.off =
      if hasBit f.ip.off ipMF = true ∨ off + len < f.ip.len then x + 8192 else x := by
    show (if _ then setBit (((off - f.ip.hlen) / 8 + clearBit f.ip.off ipMF) % 65536) ipMF
      else ((off - f.ip.hlen) / 8 + clearBit f.ip.off ipMF) % 65536) = _
    rw [hclear, hx, hset, Nat.mod_eq_of_lt (by omega)]
  unfold Packet.fragStart
  rw [hasBit_ipMF, hfield]
  split
  · next hmore => exact ⟨by omega, by omega, ⟨fun _ => hmore, fun _ => by omega⟩⟩
  · next hmore =>
      refine ⟨by omega, by omega, ⟨fun hbit => ?_, fun h => absurd h hmore⟩⟩
      omega

theorem FragOf.len_le (h : FragOf d f) (hd : Sendable d) : f.ip.len ≤ 65535 := by
  have h1 : f.ip.hlen ≤ d.ip.hlen := Nat.mul_le_mul_left 4 h.hl_le
  have h2 := h.stop
  have h3 := hd.fits
  rw [hd.len] at h3
  rw [h.len]
  omega

theorem FragOf.off_lt (h : FragOf d f) (hd : Sendable d) : f.ip.off < 65536 := by
  have h1 := h.flags
  have h2 := hd.off_lt
  omega

/-- The options a later fragment gets. -/
theorem FragOf.optcopy (h : FragOf d f) (beyond : UInt8) :
    ∃ opts, (if 20 < f.ip.hlen then ipOptcopy beyond f.ip.opts else some []) = some opts ∧
      Options opts ∧ opts.length ≤ f.ip.opts.length ∧ opts.length % 4 = 0 := by
  have hlen := h.hlen
  split
  · refine ipOptcopy_options h.opts ?_ beyond
    rw [Ip.hlen] at hlen
    omega
  · exact ⟨[], rfl, .nil, Nat.zero_le _, rfl⟩

theorem FragOf.cut (h : FragOf d f) (hd : Sendable d) {opts : List UInt8} (hopts : Options opts)
    (hle : opts.length ≤ f.ip.opts.length) (h4 : opts.length % 4 = 0) {off len : Nat}
    (hoff : f.ip.hlen < off) (h8 : (off - f.ip.hlen) % 8 = 0) (hin : off + len ≤ f.ip.len) :
    FragOf d (fragAt f opts off len) ∧
      (fragAt f opts off len).fragStart = f.fragStart + (off - f.ip.hlen) ∧
      (fragAt f opts off len).m.data.length = len := by
  have hfl := h.len
  have hstop := h.stop
  have hfits := hd.fits
  have hdl := hd.len
  have hlenle := h.len_le hd
  obtain ⟨hstart, hflags, hmore⟩ := @fragAt_off f opts off len (by omega) h8 (h.off_lt hd)
  have hdata : (fragAt f opts off len).m.data.length = len := by
    show ((f.m.data.drop (off - f.ip.hlen)).take len).length = len
    rw [List.length_take, List.length_drop]
    omega
  have hhl : (fragAt f opts off len).ip.hlen = 20 + opts.length := by
    show 4 * ((20 + opts.length) / 4) = 20 + opts.length
    omega
  have hhl' := h.hlen
  refine ⟨⟨h.key, ?_, hhl, hopts, ?_, ?_, hflags.trans h.flags, ?_, ?_, ?_, ?_⟩, hstart, hdata⟩
  · have := h.hl_le
    show (20 + opts.length) / 4 ≤ d.ip.hl
    rw [Ip.hlen] at hhl'
    omega
  · rw [hhl]
    rfl
  · rw [hhl, hdata]
    show (len + (20 + opts.length)) % 65536 = _
    omega
  · rw [hstart, ← List.drop_drop]
    obtain ⟨rest, hrest⟩ := h.slice
    rw [← hrest, List.drop_append_of_le_length (by omega)]
    exact (List.take_prefix len _).trans (List.prefix_append _ _)
  · rw [hstart, hdata]
    omega
  · rw [hmore, hstart, hdata, h.more]
    omega
  · intro hzero
    rw [hstart] at hzero
    omega

/-- One round of the loop. -/
theorem fragLoop_succ (h : FragOf d f) {net : OutNet} {len n off : Nat} {fs : List Packet}
    (hlt : off < f.ip.len) (hfs : fragLoop net f len (n + 1) off = .ok fs) :
    ∃ opts rest, (Options opts ∧ opts.length ≤ f.ip.opts.length ∧ opts.length % 4 = 0) ∧
      fragLoop net f len n (off + min len (f.ip.len - off)) = .ok rest ∧
        fs = fragAt f opts off (min len (f.ip.len - off)) :: rest := by
  obtain ⟨opts, hcopy, hopts⟩ := h.optcopy net.beyond
  have hmin : (if f.ip.len ≤ off + len then f.ip.len - off else len) =
      min len (f.ip.len - off) := by
    split <;> omega
  rw [fragLoop, if_pos hlt] at hfs
  simp only [hcopy, hmin] at hfs
  split at hfs
  · split at hfs
    · cases hrest : fragLoop net f len n (off + min len (f.ip.len - off)) with
      | error e =>
          rw [hrest] at hfs
          cases hfs
      | ok rest =>
          rw [hrest] at hfs
          cases hfs
          exact ⟨opts, rest, hopts, rfl, rfl⟩
    · cases hfs
  · cases hfs

/-- `p` has octet `i` of its datagram. -/
def Packet.Carries (p : Packet) (i : Nat) : Prop :=
  p.fragStart ≤ i ∧ i < p.fragStart + p.m.data.length

/-- What the loop sends are fragments of the datagram, and with enough rounds it
leaves nothing out. -/
theorem fragLoop_spec (h : FragOf d f) (hd : Sendable d) {net : OutNet} {len : Nat}
    (hl8 : len % 8 = 0) (hpos : 0 < len) {n off : Nat} (hoff : f.ip.hlen < off)
    (h8 : off < f.ip.len → (off - f.ip.hlen) % 8 = 0) {fs : List Packet}
    (hfs : fragLoop net f len n off = .ok fs) :
    (∀ g ∈ fs, FragOf d g) ∧
      (f.ip.len ≤ off + n → ∀ i, off ≤ i → i < f.ip.len →
        ∃ g ∈ fs, g.Carries (f.fragStart + (i - f.ip.hlen))) := by
  induction n generalizing off fs with
  | zero =>
      cases hfs
      exact ⟨fun g hg => (nomatch hg), fun hn i hi hin => by omega⟩
  | succ n ih =>
      by_cases hlt : off < f.ip.len
      · obtain ⟨opts, rest, ⟨hopts, hole, ho4⟩, hrest, rfl⟩ := fragLoop_succ h hlt hfs
        have hmod := h8 hlt
        obtain ⟨hfrag, hstart, hlen⟩ := h.cut hd hopts hole ho4 hoff hmod
          (show off + min len (f.ip.len - off) ≤ f.ip.len by omega)
        obtain ⟨hall, hcov⟩ := ih (show f.ip.hlen < off + min len (f.ip.len - off) by omega)
          (fun _ => by omega) hrest
        refine ⟨List.forall_mem_cons.mpr ⟨hfrag, hall⟩, ?_⟩
        intro hn i hi hin
        by_cases hfirst : i < off + min len (f.ip.len - off)
        · refine ⟨_, List.mem_cons_self, ?_⟩
          rw [Packet.Carries]
          rw [hstart, hlen]
          omega
        · obtain ⟨g, hg, hgi⟩ := hcov (by omega) i (by omega) hin
          exact ⟨g, List.mem_cons_of_mem _ hg, hgi⟩
      · rw [fragLoop, if_neg hlt] at hfs
        cases hfs
        exact ⟨fun g hg => (nomatch hg), fun _ i hi hin => absurd (Nat.lt_of_le_of_lt hi hin) hlt⟩

/-- The first fragment. -/
theorem FragOf.first (h : FragOf d f) (hd : Sendable d) {len : Nat}
    (hlt : f.ip.hlen + len < f.ip.len) :
    FragOf d { ip := { f.ip with len := f.ip.hlen + len, off := setBit f.ip.off ipMF }
               m := mAdj f.m (f.ip.len - (f.ip.hlen + len)) } ∧
      8 * (setBit f.ip.off ipMF % 8192) = f.fragStart ∧
      (mAdj f.m (f.ip.len - (f.ip.hlen + len))).data.length = len := by
  have hlen := h.len
  have hstop := h.stop
  have hoff := h.off_lt hd
  have hmf : ipMF = 8192 := rfl
  have hset : setBit f.ip.off ipMF = f.ip.off / 16384 * 16384 + 8192 + f.ip.off % 8192 := by
    simp only [setBit, hasBit, hmf, decide_eq_true_eq]
    split <;> omega
  have hadj : mAdj f.m (f.ip.len - (f.ip.hlen + len)) = { f.m with data := f.m.data.take len } := by
    have hkeep : f.m.data.length - (f.ip.len - (f.ip.hlen + len)) = len := by omega
    rw [mAdj, if_pos (by omega), hkeep]
  have hdata : (f.m.data.take len).length = len := by
    rw [List.length_take]
    omega
  have hstart : 8 * (setBit f.ip.off ipMF % 8192) = f.fragStart := by
    rw [Packet.fragStart]
    omega
  rw [hadj]
  refine ⟨⟨h.key, h.hl_le, h.hlen, h.opts, h.hdr, ?_, ?_, ?_, ?_, ?_, ?_⟩, hstart, hdata⟩
  · show f.ip.hlen + len = f.ip.hlen + (f.m.data.take len).length
    rw [hdata]
  · show setBit f.ip.off ipMF / 16384 = _
    rw [← h.flags]
    omega
  · show f.m.data.take len <+: d.m.data.drop (8 * (setBit f.ip.off ipMF % 8192))
    rw [hstart]
    exact (List.take_prefix len _).trans h.slice
  · show 8 * (setBit f.ip.off ipMF % 8192) + (f.m.data.take len).length ≤ _
    rw [hstart, hdata]
    omega
  · show hasBit (setBit f.ip.off ipMF) ipMF = true ↔
      8 * (setBit f.ip.off ipMF % 8192) + (f.m.data.take len).length < _
    rw [hstart, hdata, hasBit_ipMF]
    omega
  · show 8 * (setBit f.ip.off ipMF % 8192) = 0 → _
    rw [hstart]
    exact h.lead

/-- Every packet that is sent for a fragment is a fragment, and together they have
all of its data. -/
theorem ipOutput_spec (h : FragOf d f) (hd : Sendable d) {net : OutNet} {fs : List Packet}
    (hfs : ipOutput net f = .ok fs) :
    (∀ g ∈ fs, FragOf d g) ∧ ∀ i, f.Carries i → ∃ g ∈ fs, g.Carries i := by
  unfold ipOutput at hfs
  simp only at hfs
  split at hfs
  · cases hfs
    exact ⟨by simpa using h, fun i hi => ⟨f, by simp, hi⟩⟩
  · next hmtu =>
      split at hfs
      · cases hfs
      · split at hfs
        · cases hfs
        · next hlen8 =>
            have hfl := h.len
            obtain ⟨hfirst, hstart, hdata⟩ :=
              h.first hd (show f.ip.hlen + (net.mtu - f.ip.hlen) / 8 * 8 < f.ip.len by omega)
            cases hrest : fragLoop net f ((net.mtu - f.ip.hlen) / 8 * 8) f.ip.len
                (f.ip.hlen + (net.mtu - f.ip.hlen) / 8 * 8) with
            | error e =>
                rw [hrest] at hfs
                cases hfs
            | ok rest =>
                rw [hrest] at hfs
                cases hfs
                obtain ⟨hall, hcov⟩ := fragLoop_spec h hd (by omega) (by omega) (by omega)
                  (fun _ => by omega) hrest
                refine ⟨List.forall_mem_cons.mpr ⟨hfirst, hall⟩, ?_⟩
                intro i hi
                rw [Packet.Carries] at hi
                by_cases hin : i < f.fragStart + (net.mtu - f.ip.hlen) / 8 * 8
                · refine ⟨_, List.mem_cons_self, ?_, ?_⟩
                  · exact Nat.le_trans (Nat.le_of_eq hstart) hi.1
                  · show i < 8 * (setBit f.ip.off ipMF % 8192) + (mAdj f.m _).data.length
                    rwa [hstart, hdata]
                · obtain ⟨g, hg, hgi⟩ := hcov (by omega) (f.ip.hlen + (i - f.fragStart)) (by omega)
                    (by omega)
                  have hback : f.fragStart + (f.ip.hlen + (i - f.fragStart) - f.ip.hlen) = i := by
                    omega
                  rw [hback] at hgi
                  exact ⟨g, List.mem_cons_of_mem _ hg, hgi⟩

theorem fragLoop_sends (h : FragOf d f) {net : OutNet} (hmbuf : ∀ off, net.mbuf off = true)
    (hcopy : ∀ off, net.copy off = true) (len n off : Nat) :
    ∃ fs, fragLoop net f len n off = .ok fs := by
  induction n generalizing off with
  | zero => exact ⟨[], rfl⟩
  | succ n ih =>
      obtain ⟨opts, hopts, -⟩ := h.optcopy net.beyond
      rw [fragLoop]
      split
      · obtain ⟨rest, hrest⟩ := ih (off + if f.ip.len ≤ off + len then f.ip.len - off else len)
        simp only [hmbuf, hopts, hcopy, hrest, if_true]
        exact ⟨_, rfl⟩
      · exact ⟨[], rfl⟩

/-- With a header and eight octets to a packet and no mbuf missing, a fragment that
may be fragmented is sent. -/
theorem ipOutput_sends (h : FragOf d f) {net : OutNet} (hmtu : f.ip.hlen + 8 ≤ net.mtu)
    (hdf : hasBit f.ip.off ipDF = false) (hmbuf : ∀ off, net.mbuf off = true)
    (hcopy : ∀ off, net.copy off = true) : ∃ fs, ipOutput net f = .ok fs := by
  unfold ipOutput
  simp only
  split
  · exact ⟨_, rfl⟩
  · obtain ⟨fs, hfs⟩ := fragLoop_sends h hmbuf hcopy ((net.mtu - f.ip.hlen) / 8 * 8) f.ip.len
      (f.ip.hlen + (net.mtu - f.ip.hlen) / 8 * 8)
    rw [hdf, if_neg Bool.false_ne_true, if_neg (by omega), hfs]
    exact ⟨_, rfl⟩

theorem Carried.fragOf (h : Carried d f) (hd : Sendable d) : FragOf d f := by
  induction h with
  | self => exact hd.fragOf
  | hop net _ hsent hg ih => exact (ipOutput_spec ih hd hsent).1 _ hg

end

end VxWorks.Netinet
