import VxWorks.Netinet.IpSend
import VxWorks.Netinet.IpTunnel

/-!
# What a host asks of a header (ip_input.c, ip_output.c)

Before it looks at the options of a datagram, `ipintr` asks for version 4, for a header that is long
enough and lies in the first mbuf, for its checksum if checksums are verified, and for no less
octets than the header says. What is behind the datagram is cut off.

The last that `ip_output` does is to write `ip_sum`. So what it sends is taken in wherever it comes
to, whatever mbufs it lies in there and however a driver has padded it, as long as nobody verifies
checksums that others do not compute.

`m_pullup` is a parameter. There is no `_ipFilterHook`. `ip_len` and `ip_off` stand in a header as
they do on the wire.
-/

namespace VxWorks.Netinet

open VxWorks.Lib

/-! ## ipintr -/

/-- `ip_sum` where it stands in the header. -/
def ipSumAt : Nat := 10

/-- A host that takes in datagrams, too: whether there is an address in `in_ifaddr`,
`_ipCfgFlags & IP_DO_CHECKSUM_RCV`, and `m_pullup`. -/
structure InHost extends OutHost where
  ifaddr : Bool
  cksumRcv : Bool
  mPullup : Nat → Chain → Option Chain

/-- `m_pullup` where the first mbuf is too short. -/
def InHost.pullup (h : InHost) (n : Nat) (m : Chain) : Option Chain :=
  if m.mLen < n then h.mPullup n m else some m

/-- What is behind the first `n` octets is cut off, by `m_adj` or by hand. -/
def Chain.trim (m : Chain) (n : Nat) : Chain :=
  { m with mLen := min m.mLen n, rest := m.rest.take (n - m.mLen) }

/-- `ipintr` before `ip_nhops = 0`: the datagram if it is not discarded. -/
def InHost.ipintrHead (h : InHost) (m : Chain) : Option Chain :=
  if h.ifaddr = false then none
  else
    match h.pullup 20 m with
    | none => none
    | some m =>
        let hlen := ipHlen m.data
        if (m.data 0).toNat / 16 ≠ 4 then none
        else if hlen < 20 then none
        else
          match h.pullup hlen m with
          | none => none
          | some m =>
              let sum := inCksum h.bo (h.layout.mbufs m.octets) hlen
              if h.cksumRcv = true ∧ sum ≠ 0 then none
              else
                -- `ip_sum` is what the sum over the header was
                let m := if h.cksumRcv then m.withData (m.data.set16 ipSumAt 0) else m
                let len := (m.data.u16 ipLenAt).toNat
                if len < hlen then none
                else if m.octets.length < len then none
                else some (m.trim len)

/-- The end of `ip_output`: the datagram as an interface is handed it. -/
def OutHost.seal (host : OutHost) (m : Chain) : Chain :=
  let sum := host.cksum (m.withData (m.data.set16 ipSumAt 0)).octets (ipHlen m.data)
  m.withData (m.data.set16 ipSumAt (get16 (sum.getD 0 0) (sum.getD 1 0)))

/-! ## Datagrams -/

/-- Octets that are a datagram. If `ck` holds its checksum is right. -/
structure Datagram (ck : Bool) (l : List UInt8) : Prop where
  version : (Buf.of l 0).toNat / 16 = 4
  min : 20 ≤ ipHlen (Buf.of l)
  hlen : ipHlen (Buf.of l) ≤ l.length
  len : ((Buf.of l).u16 ipLenAt).toNat = l.length
  sum : ck = true → internetCksum (l.take (ipHlen (Buf.of l))) = 0

/-- A datagram in mbufs, the fixed header in the first of them. -/
structure Chain.Whole (m : Chain) : Prop where
  first : 20 ≤ m.mLen
  version : (m.data 0).toNat / 16 = 4
  min : 20 ≤ ipHlen m.data
  hlen : ipHlen m.data ≤ m.octets.length
  len : (m.data.u16 ipLenAt).toNat = m.octets.length

/-- The mbufs have what was received, but perhaps for `ip_sum`. -/
structure Received (l : List UInt8) (m : Chain) : Prop where
  length : m.octets.length = l.length
  octet : ∀ i, i ≠ 10 → i ≠ 11 → m.octet i = Buf.of l i

/-- Nothing keeps a host from taking in datagrams, and it verifies no checksums if `ck` does not
hold, and computes them if it does. -/
structure InHost.Ready (h : InHost) (ck : Bool) : Prop where
  ifaddr : h.ifaddr = true
  verifies : h.cksumRcv = true → ck = true
  computes : ck = true → h.cksumSnd = true
  mPullup : ∀ n m, n ≤ 60 → n ≤ m.octets.length →
    ∃ m', h.mPullup n m = some m' ∧ m'.octets = m.octets ∧ n ≤ m'.mLen

section

variable {h : InHost} {host : OutHost} {m m' got : Chain} {l : List UInt8} {ck : Bool} {n : Nat}
  {b : Buf}

theorem ipHlen_le (b : Buf) : ipHlen b ≤ 60 := by
  rw [ipHlen]
  omega

theorem Headed.mLen (h : Headed m) : 20 ≤ m.mLen := h.min.trans h.pullup

theorem Chain.of_octets (m : Chain) : Buf.of m.octets = m.octet := funext m.octets_getD

theorem octets_oneMbuf (m : Chain) : (oneMbuf m).octets = m.octets := by
  show (Buf.of m.octets).take m.octets.length ++ [] = _
  rw [List.append_nil, Buf.take_of le_rfl, List.take_length]

theorem Chain.length_withData (m : Chain) (b : Buf) :
    (m.withData b).octets.length = m.octets.length := by
  rw [Chain.length_octets, Chain.length_octets]
  rfl

theorem InHost.Ready.pullup (hh : h.Ready ck) (hn : n ≤ 60) (hlong : n ≤ m.octets.length) :
    ∃ m', h.pullup n m = some m' ∧ m'.octets = m.octets ∧ n ≤ m'.mLen := by
  rw [InHost.pullup]
  split
  · exact hh.mPullup n m hn hlong
  · next hshort => exact ⟨m, rfl, rfl, by omega⟩

theorem octet_prefixed (hl : l <+: m.octets) {i : Nat} (hi : i < l.length) :
    m.octet i = Buf.of l i := by
  obtain ⟨pad, hpad⟩ := hl
  rw [← Chain.of_octets, ← hpad]
  exact List.getD_append _ _ _ _ hi

theorem data_prefixed (hl : l <+: m.octets) {i : Nat} (hi : i < m.mLen) (hil : i < l.length) :
    m.data i = Buf.of l i := by
  rw [← Chain.octet_lt hi]
  exact octet_prefixed hl hil

/-- A header whose checksum is right sums up to zero. -/
theorem inCksum_eq_zero (bo : ByteOrder) (layout : Layout) (hn : n ≤ 65535) (hl : n ≤ l.length)
    (hsum : internetCksum (l.take n) = 0) : inCksum bo (layout.mbufs l) n = 0 := by
  have hall : n ≤ (chainData (layout.mbufs l)).length := by rwa [layout.whole]
  obtain ⟨x, hx, hones, hret⟩ := inCksum_sum bo _ hall hn
  rw [layout.whole] at hones
  rw [htons_internetCksum hx hones, hsum] at hret
  refine UInt32.toNat_inj.mp (hret.trans ?_)
  cases bo with
  | big => rfl
  | little => rfl

theorem Chain.octets_trim (m : Chain) (n : Nat) : (m.trim n).octets = m.octets.take n := by
  rw [Chain.octets, Chain.octets, Chain.trim, List.take_append, Buf.length_take]
  dsimp only
  congr 1
  rw [Buf.take, Buf.take, ← List.map_take, List.take_range, Nat.min_comm]

theorem Chain.length_trim (hn : n ≤ m.octets.length) : (m.trim n).octets.length = n := by
  rw [Chain.octets_trim, List.length_take]
  omega

theorem Chain.octet_trim {i : Nat} (hi : i < n) : (m.trim n).octet i = m.octet i := by
  rw [← Chain.octets_getD, ← Chain.octets_getD, Chain.octets_trim, List.getD_eq_getElem?_getD,
    List.getElem?_take_of_lt hi, ← List.getD_eq_getElem?_getD]

/-- Whether or not checksums are verified, only `ip_sum` is not what came. -/
theorem ipSum_verified (h : InHost) (m : Chain) :
    ∃ m', (if h.cksumRcv = true then m.withData (m.data.set16 ipSumAt 0) else m) = m' ∧
      m'.mLen = m.mLen ∧ m'.octets.length = m.octets.length ∧
      (∀ i, i ≠ 10 → i ≠ 11 → m'.data i = m.data i) ∧
      ∀ i, i ≠ 10 → i ≠ 11 → m'.octet i = m.octet i := by
  refine ⟨_, rfl, ?_⟩
  split
  · have hdata : ∀ i, i ≠ 10 → i ≠ 11 → m.data.set16 ipSumAt 0 i = m.data i :=
      fun i h₁₀ h₁₁ => Buf.set16_of_ne _ ⟨h₁₀, h₁₁⟩
    exact ⟨rfl, Chain.length_withData m _, hdata,
      fun i h₁₀ h₁₁ => Chain.octet_withData _ _ _ (hdata i h₁₀ h₁₁)⟩
  · exact ⟨rfl, rfl, fun _ _ _ => rfl, fun _ _ _ => rfl⟩

/-- The checksum of a datagram is right where it is verified. -/
theorem Datagram.verified (hl : Datagram ck l) (hh : h.Ready ck) (hgot : l <+: m.octets) :
    ¬ (h.cksumRcv = true ∧ inCksum h.bo (h.layout.mbufs m.octets) (ipHlen (Buf.of l)) ≠ 0) := by
  rintro ⟨hrcv, hne⟩
  have hhlen := hl.hlen
  have hlong := hgot.length_le
  refine hne (inCksum_eq_zero _ _ ((ipHlen_le _).trans (by decide)) (by omega) ?_)
  obtain ⟨pad, hpad⟩ := hgot
  rw [← hpad, List.take_append_of_le_length hhlen]
  exact hl.sum (hh.verifies hrcv)

/-- What is cut to its length is the datagram. -/
theorem trim_datagram (hl : Datagram ck l) (hlen : ipHlen (Buf.of l) ≤ m.mLen)
    (hall : l.length ≤ m.octets.length)
    (hoctet : ∀ i, i < l.length → i ≠ 10 → i ≠ 11 → m.octet i = Buf.of l i) :
    (m.trim l.length).Whole ∧ Headed (m.trim l.length) ∧ Received l (m.trim l.length) := by
  have hmin := hl.min
  have hhlen := hl.hlen
  have hdata : ∀ i, i < 10 → m.data i = Buf.of l i := by
    intro i hi
    rw [← Chain.octet_lt (show i < m.mLen by omega)]
    exact hoctet i (by omega) (by omega) (by omega)
  have hhlen' : ipHlen m.data = ipHlen (Buf.of l) := by rw [ipHlen, hdata 0 (by omega), ipHlen]
  have hlength := Chain.length_trim hall
  have hheaded : Headed (m.trim l.length) := by
    refine ⟨?_, ?_⟩
    · show 20 ≤ ipHlen m.data
      rw [hhlen']
      exact hmin
    · show ipHlen m.data ≤ min m.mLen l.length
      rw [hhlen']
      omega
  refine ⟨⟨hheaded.mLen, ?_, hheaded.min, ?_, ?_⟩, hheaded, hlength, ?_⟩
  · show (m.data 0).toNat / 16 = 4
    rw [hdata 0 (by omega)]
    exact hl.version
  · show ipHlen m.data ≤ _
    rw [hhlen', hlength]
    exact hhlen
  · show (m.data.u16 ipLenAt).toNat = _
    rw [hlength, ← hl.len]
    congr 1
    exact Buf.u16_congr (hdata 2 (by omega)) (hdata 3 (by omega))
  · intro i h₁₀ h₁₁
    rcases Nat.lt_or_ge i l.length with hi | hi
    · rw [Chain.octet_trim hi]
      exact hoctet i hi h₁₀ h₁₁
    · rw [← Chain.octets_getD, List.getD_eq_default _ _ (by omega)]
      exact (List.getD_eq_default _ _ hi).symm

/-- What was sent as a datagram is taken in. -/
theorem ipintrHead_spec (hh : h.Ready ck) (hl : Datagram ck l) (hgot : l <+: got.octets) :
    ∃ m, h.ipintrHead got = some m ∧ m.Whole ∧ Headed m ∧ Received l m := by
  have hmin := hl.min
  have hhlen := hl.hlen
  have hlong := hgot.length_le
  obtain ⟨m₁, hpull₁, hoctets₁, hlen₁⟩ := hh.pullup (m := got) (n := 20) (by omega) (by omega)
  have hfirst : m₁.data 0 = Buf.of l 0 :=
    data_prefixed (hoctets₁ ▸ hgot) (by omega) (by omega)
  have hhlen₁ : ipHlen m₁.data = ipHlen (Buf.of l) := by rw [ipHlen, hfirst, ipHlen]
  obtain ⟨m₂, hpull₂, hoctets₂, hlen₂⟩ := hh.pullup (m := m₁) (ipHlen_le (Buf.of l))
    (by rw [hoctets₁]; omega)
  have hprefix : l <+: m₂.octets := by rwa [hoctets₂, hoctets₁]
  obtain ⟨m₃, hm₃, hmLen₃, hlength₃, hdata₃, hoctet₃⟩ := ipSum_verified h m₂
  have hall : l.length ≤ m₃.octets.length := by
    rw [hlength₃]
    exact hprefix.length_le
  have hiplen : (m₃.data.u16 ipLenAt).toNat = l.length := by
    have hdata : ∀ i, i < 10 → m₃.data i = Buf.of l i := fun i hi =>
      (hdata₃ i (by omega) (by omega)).trans (data_prefixed hprefix (by omega) (by omega))
    rw [← hl.len]
    congr 1
    exact Buf.u16_congr (hdata 2 (by omega)) (hdata 3 (by omega))
  refine ⟨m₃.trim l.length, ?_, trim_datagram hl (hmLen₃ ▸ hlen₂) hall fun i hi h₁₀ h₁₁ => ?_⟩
  · rw [InHost.ipintrHead, hh.ifaddr, if_neg Bool.true_eq_false.mp, hpull₁]
    dsimp only
    rw [hfirst, hhlen₁, if_neg (not_not.mpr hl.version), if_neg (Nat.not_lt.mpr hmin), hpull₂]
    dsimp only
    rw [if_neg (hl.verified hh hprefix), hm₃, hiplen, if_neg (by omega), if_neg (by omega)]
  · rw [hoctet₃ i h₁₀ h₁₁]
    exact octet_prefixed hprefix hi

/-! ## What is sent -/

theorem Datagram.whole (hm : Datagram ck m.octets) (hfirst : 20 ≤ m.mLen) : m.Whole := by
  have hdata : ∀ i, i < 20 → Buf.of m.octets i = m.data i := by
    intro i hi
    rw [Chain.of_octets, Chain.octet_lt (by omega)]
  have hhlen : ipHlen (Buf.of m.octets) = ipHlen m.data := by
    rw [ipHlen, hdata 0 (by omega), ipHlen]
  refine ⟨hfirst, ?_, hhlen ▸ hm.min, hhlen ▸ hm.hlen, ?_⟩
  · rw [← hdata 0 (by omega)]
    exact hm.version
  · rw [← hm.len]
    congr 1
    exact (Buf.u16_congr (hdata 2 (by omega)) (hdata 3 (by omega))).symm

/-- The header is written to, but for its length and that of the datagram. -/
theorem Chain.Whole.withData (hm : m.Whole) (h₀ : b 0 = m.data 0) (h₂ : b 2 = m.data 2)
    (h₃ : b 3 = m.data 3) : (m.withData b).Whole := by
  have hhlen : ipHlen b = ipHlen m.data := by rw [ipHlen, h₀, ipHlen]
  refine ⟨hm.first, ?_, ?_, ?_, ?_⟩
  · show (b 0).toNat / 16 = 4
    rw [h₀]
    exact hm.version
  · exact hhlen ▸ hm.min
  · rw [Chain.length_withData]
    exact hhlen ▸ hm.hlen
  · show (b.u16 ipLenAt).toNat = _
    have hlen : b.u16 ipLenAt = m.data.u16 ipLenAt := Buf.u16_congr h₂ h₃
    rw [hlen, hm.len, Chain.length_withData]

theorem Headed.withData (hm : Headed m) (h₀ : b 0 = m.data 0) : Headed (m.withData b) := by
  have hhlen : ipHlen b = ipHlen m.data := by rw [ipHlen, h₀, ipHlen]
  exact ⟨hhlen ▸ hm.min, hhlen ▸ hm.pullup⟩

/-- The octets with a checksum in its place. -/
theorem Chain.octets_set16 (hfirst : 12 ≤ m.mLen) (v : UInt16) :
    (m.withData (m.data.set16 ipSumAt v)).octets =
      m.octets.take 10 ++ (put16 v ++ m.octets.drop 12) := by
  have hsplit : m.mLen = 10 + (2 + (m.mLen - 12)) := by omega
  have hfront : (m.data.set16 ipSumAt v).slice 0 10 = m.data.slice 0 10 :=
    Buf.slice_congr fun i _ hi => Buf.set16_of_ne _ (by rw [ipSumAt]; omega)
  have hsum : (m.data.set16 ipSumAt v).slice 10 2 = put16 v := by
    simp [Buf.slice, Buf.set16, put16, ipSumAt, List.range_succ]
  have hback : (m.data.set16 ipSumAt v).slice 12 (m.mLen - 12) = m.data.slice 12 (m.mLen - 12) :=
    Buf.slice_congr fun i hi _ => Buf.set16_of_ne _ (by rw [ipSumAt]; omega)
  have hslice : ∀ b : Buf, b.take m.mLen =
      b.slice 0 10 ++ (b.slice 10 2 ++ b.slice 12 (m.mLen - 12)) := by
    intro b
    rw [← Buf.slice_zero_eq_take]
    conv_lhs => rw [hsplit, Buf.slice_add, Buf.slice_add, Nat.zero_add]
  have hoctets : m.octets = m.data.slice 0 10 ++ (m.data.slice 10 2 ++
      (m.data.slice 12 (m.mLen - 12) ++ m.rest)) := by
    rw [Chain.octets, hslice]
    simp only [List.append_assoc]
  have hdrop : m.octets.drop 12 = m.data.slice 12 (m.mLen - 12) ++ m.rest := by
    rw [hoctets, ← List.append_assoc]
    exact List.drop_left' (by simp)
  have htake : m.octets.take 10 = m.data.slice 0 10 := by
    rw [hoctets]
    exact List.take_left' (by simp)
  show (m.data.set16 ipSumAt v).take m.mLen ++ m.rest = _
  rw [hslice, hfront, hsum, hback, hdrop, htake]
  simp only [List.append_assoc]

theorem seal_data (host : OutHost) (m : Chain) {i : Nat} (h₁₀ : i ≠ 10) (h₁₁ : i ≠ 11) :
    (host.seal m).data i = m.data i := Buf.set16_of_ne _ ⟨h₁₀, h₁₁⟩

theorem seal_octet (host : OutHost) (m : Chain) {i : Nat} (h₁₀ : i ≠ 10) (h₁₁ : i ≠ 11) :
    (host.seal m).octet i = m.octet i := Chain.octet_withData _ _ _ (seal_data host m h₁₀ h₁₁)

theorem Chain.Whole.seal (hm : m.Whole) (host : OutHost) : (host.seal m).Whole := by
  have hdata : ∀ i, i < 10 → (host.seal m).data i = m.data i :=
    fun i hi => seal_data host m (by omega) (by omega)
  exact hm.withData (hdata 0 (by omega)) (hdata 2 (by omega)) (hdata 3 (by omega))

/-- The checksum that is written is right. -/
theorem internetCksum_seal (hm : m.Whole) (hsnd : host.cksumSnd = true) :
    internetCksum ((host.seal m).octets.take (ipHlen m.data)) = 0 := by
  have hfirst := hm.first
  have hmin := hm.min
  have hlong := hm.hlen
  have hmost := ipHlen_le m.data
  obtain ⟨x, y, hxy⟩ : ∃ x y, host.cksum (m.withData (m.data.set16 ipSumAt 0)).octets
      (ipHlen m.data) = [x, y] := List.length_eq_two.mp (length_cksum ..)
  -- the header is what is in front of the checksum, and behind it
  obtain ⟨back, data, hback, hdrop⟩ : ∃ back data, back.length = ipHlen m.data - 12 ∧
      m.octets.drop 12 = back ++ data := by
    refine ⟨(m.octets.drop 12).take (ipHlen m.data - 12),
      (m.octets.drop 12).drop (ipHlen m.data - 12), ?_, (List.take_append_drop _ _).symm⟩
    rw [List.length_take, List.length_drop]
    omega
  have hfront : (m.octets.take 10).length = 10 := by
    rw [List.length_take]
    omega
  have hsplit : ∀ v, (m.withData (m.data.set16 ipSumAt v)).octets =
      m.octets.take 10 ++ (put16 v ++ back) ++ data := by
    intro v
    rw [Chain.octets_set16 (by omega), hdrop]
    simp only [List.append_assoc]
  have hoctets : (host.seal m).octets = m.octets.take 10 ++ ([x, y] ++ back) ++ data := by
    rw [OutHost.seal, hxy, hsplit, List.getD_cons_zero, List.getD_cons_succ,
      List.getD_cons_zero, put16_get16]
  have hlen : ((ipHlen m.data : Nat) : Int) = (m.octets.take 10 ++ ([0, 0] ++ back)).length := by
    simp only [List.length_append, hfront, hback, List.length_cons, List.length_nil]
    omega
  have hzero : put16 0 = [0, 0] := rfl
  have hvalid := @cksum_valid host _ hsnd (m.octets.take 10) back data (by rw [hfront])
    hlen (by omega)
  rw [hsplit, hzero] at hxy
  rw [hxy] at hvalid
  rw [hoctets, List.take_left']
  · exact hvalid
  · simp only [List.length_append, hfront, hback, List.length_cons, List.length_nil]
    omega

/-- What is sent is a datagram. -/
theorem datagram_seal (hm : m.Whole) (hck : ck = true → host.cksumSnd = true) :
    Datagram ck (host.seal m).octets := by
  have hseal := hm.seal host
  have hfirst := hseal.first
  have hdata : ∀ i, i < 20 → Buf.of (host.seal m).octets i = (host.seal m).data i := by
    intro i hi
    rw [Chain.of_octets, Chain.octet_lt (by omega)]
  have hhlen : ipHlen (Buf.of (host.seal m).octets) = ipHlen (host.seal m).data := by
    rw [ipHlen, hdata 0 (by omega), ipHlen]
  refine ⟨?_, ?_, ?_, ?_, ?_⟩
  · rw [hdata 0 (by omega)]
    exact hseal.version
  · rw [hhlen]
    exact hseal.min
  · rw [hhlen]
    exact hseal.hlen
  · rw [← hseal.len]
    congr 1
    exact Buf.u16_congr (hdata 2 (by omega)) (hdata 3 (by omega))
  · intro hcksum
    rw [hhlen, ipHlen, seal_data host m (by omega) (by omega), ← ipHlen]
    exact internetCksum_seal hm (hck hcksum)

end

end VxWorks.Netinet
