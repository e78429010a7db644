import VxWorks.Netinet.IpMforward

/-!
# Copies of a multicast datagram (ip_mroute.c, ip_input.c)

On its way through multicast routers a datagram changes in `ip_ttl` and the checksum and in nothing
else, as long as its options are left alone. So what a router does with it is told by `ip_ttl`: the
next interface finds one less if the copy for a physical interface got as far as `ip_output`, and as
much as before if there were no mbufs or the copy was for a tunnel.

What comes to a router from a LAN is such a copy when `ip_mforward` gets it from `ipintr`, and what
comes to it from a tunnel is one when it is out of its wrapping.
-/

namespace VxWorks.Netinet

open VxWorks.Lib

/-- A copy of a datagram: the same but for `ip_ttl` and the checksum. -/
structure IsCopy (m₀ : Chain) (ttl : UInt8) (m : Chain) : Prop where
  headed : Headed m
  length : m.octets.length = m₀.octets.length
  octet : ∀ i, i ≠ 8 → i ≠ 10 → i ≠ 11 → m.octet i = m₀.octet i
  ttl : m.data ipTtlAt = ttl

section

variable {m₀ m sent got : Chain} {ttl worn : UInt8} {sum : UInt16} {vif : Vif}

/-- The fixed header of a copy. -/
theorem IsCopy.data (h : IsCopy m₀ ttl m) (h₀ : Headed m₀) {i : Nat} (hi : i < 20)
    (h₈ : i ≠ 8) (h₁₀ : i ≠ 10) (h₁₁ : i ≠ 11) : m.data i = m₀.data i := by
  have hoctet := h.octet i h₈ h₁₀ h₁₁
  have hlen := h.headed.mLen
  have hlen₀ := h₀.mLen
  rwa [Chain.octet_lt (by omega), Chain.octet_lt (by omega)] at hoctet

theorem IsCopy.hlen (h : IsCopy m₀ ttl m) (h₀ : Headed m₀) : ipHlen m.data = ipHlen m₀.data := by
  rw [ipHlen, ipHlen, h.data h₀ (by omega) (by omega) (by omega) (by omega)]

/-- The options of a copy. -/
theorem IsCopy.option (h : IsCopy m₀ ttl m) (h₀ : Headed m₀) {i : Nat} (hlo : 12 ≤ i)
    (hi : i < ipHlen m₀.data) : m.data i = m₀.data i := by
  have hoctet := h.octet i (by omega) (by omega) (by omega)
  have hpull := h.headed.pullup
  have hpull₀ := h₀.pullup
  have hlen := h.hlen h₀
  rwa [Chain.octet_lt (by omega), Chain.octet_lt (by omega)] at hoctet

theorem IsCopy.options (h : IsCopy m₀ ttl m) (h₀ : Headed m₀) (i : Nat) (hlo : 20 ≤ i)
    (hi : i < 20 + (ipHlen m₀.data - 20)) : m.data i = m₀.data i := by
  have hmin := h₀.min
  have hlt : i < ipHlen m₀.data := by omega
  exact h.option h₀ (by omega) hlt

theorem IsCopy.u32 (h : IsCopy m₀ ttl m) (h₀ : Headed m₀) {i : Nat} (hlo : 12 ≤ i)
    (hi : i + 4 ≤ 20) : m.data.u32 i = m₀.data.u32 i :=
  Buf.u32_congr fun _ _ _ => h.data h₀ (by omega) (by omega) (by omega) (by omega)

theorem IsCopy.refl (h₀ : Headed m₀) : IsCopy m₀ (m₀.data ipTtlAt) m₀ :=
  ⟨h₀, rfl, fun _ _ _ _ => rfl, rfl⟩

/-- `ip_ttl` and the checksum are written to. -/
theorem IsCopy.withData (h : IsCopy m₀ ttl m) {b : Buf}
    (hb : ∀ i, i ≠ 8 → i ≠ 10 → i ≠ 11 → b i = m.data i) :
    IsCopy m₀ (b ipTtlAt) (m.withData b) where
  headed := h.headed.withData (hb 0 (by omega) (by omega) (by omega))
  length := (Chain.length_withData m b).trans h.length
  octet i h₈ h₁₀ h₁₁ := by
    rw [Chain.octet_withData _ _ _ (hb i h₈ h₁₀ h₁₁)]
    exact h.octet i h₈ h₁₀ h₁₁
  ttl := rfl

/-- Some hops later. -/
theorem IsCopy.older (h : IsCopy m₀ ttl m) (x : UInt8) :
    IsCopy m₀ x (m.withData (m.data.set8 ipTtlAt x)) := by
  have hcopy := h.withData (b := m.data.set8 ipTtlAt x) fun i h₈ _ _ => Buf.set8_of_ne _ h₈
  rwa [Buf.set8_same] at hcopy

theorem IsCopy.seal (h : IsCopy m₀ ttl m) (host : OutHost) : IsCopy m₀ ttl (host.seal m) := by
  have hcopy := h.withData (b := (host.seal m).data) fun i _ h₁₀ h₁₁ => seal_data host m h₁₀ h₁₁
  rwa [seal_data host m (by rw [ipTtlAt]; omega) (by rw [ipTtlAt]; omega), h.ttl] at hcopy

theorem IsCopy.whole (h : IsCopy m₀ ttl m) (h₀ : Headed m₀) (hwhole : m₀.Whole) : m.Whole := by
  have hdata : ∀ i, i < 8 → m.data i = m₀.data i :=
    fun i hi => h.data h₀ (by omega) (by omega) (by omega) (by omega)
  refine ⟨h.headed.mLen, ?_, h.headed.min, ?_, ?_⟩
  · rw [hdata 0 (by omega)]
    exact hwhole.version
  · rw [h.hlen h₀, h.length]
    exact hwhole.hlen
  · rw [h.length, ← hwhole.len]
    congr 1
    exact Buf.u16_congr (hdata 2 (by omega)) (hdata 3 (by omega))

/-- What is taken in of a copy is a copy. -/
theorem IsCopy.received (h : IsCopy m₀ ttl sent) (hr : Received sent.octets got)
    (hgot : Headed got) : IsCopy m₀ ttl got := by
  have hoctet : ∀ i, i ≠ 10 → i ≠ 11 → got.octet i = sent.octet i := by
    intro i h₁₀ h₁₁
    rw [hr.octet i h₁₀ h₁₁, Chain.of_octets]
  have hlen := hgot.mLen
  have hlen' := h.headed.mLen
  refine ⟨hgot, hr.length.trans h.length, ?_, ?_⟩
  · intro i h₈ h₁₀ h₁₁
    rw [hoctet i h₁₀ h₁₁]
    exact h.octet i h₈ h₁₀ h₁₁
  · have httl := hoctet 8 (by omega) (by omega)
    rw [Chain.octet_lt (by omega), Chain.octet_lt (by omega)] at httl
    exact httl.trans h.ttl

/-- What is delivered of a copy is a copy. -/
theorem IsCopy.delivered (h : IsCopy m₀ ttl sent) (hd : Delivered sent got sum) :
    IsCopy m₀ ttl got := by
  have hsent := h.headed.mLen
  have hgot := hd.header
  have hoctet := hd.octet
  have hdata : ∀ i, i < 20 → i ≠ 10 → i ≠ 11 → got.data i = sent.data i := by
    intro i hi h₁₀ h₁₁
    rw [← Chain.octet_lt (show i < got.mLen by omega), hoctet,
      Chain.octet_withData _ _ _ (Buf.set16_of_ne _ ⟨h₁₀, h₁₁⟩), Chain.octet_lt (by omega)]
  have hhlen : ipHlen got.data = ipHlen sent.data := by
    rw [ipHlen, ipHlen, hdata 0 (by omega) (by omega) (by omega)]
  refine ⟨⟨hhlen ▸ h.headed.min, hd.pullup⟩, ?_, ?_, ?_⟩
  · rw [← h.length, hd.octets, Chain.length_octets, Chain.length_octets]
    rfl
  · intro i h₈ h₁₀ h₁₁
    rw [hoctet, Chain.octet_withData _ _ _ (Buf.set16_of_ne _ ⟨h₁₀, h₁₁⟩)]
    exact h.octet i h₈ h₁₀ h₁₁
  · exact (hdata 8 (by omega) (by omega) (by omega)).trans h.ttl

/-! ### In a tunnel -/

/-- `ip_ttl` and the checksum are written to, within the wrapping and without. -/
theorem Tunnelled.withData (h : Tunnelled vif m sent) {b b' : Buf}
    (hb : ∀ i, i ≠ 8 → i ≠ 10 → i ≠ 11 → b i = m.data i)
    (hb' : ∀ i, i ≠ 8 → i ≠ 10 → i ≠ 11 → b' i = sent.data i) (httl : b' 8 = b 8 - 1)
    (h₁₀ : b' 10 = b 10) (h₁₁ : b' 11 = b 11) :
    Tunnelled vif (m.withData b) (sent.withData b') := by
  have hsent32 : ∀ i, 12 ≤ i → b'.u32 i = sent.data.u32 i :=
    fun i hi => Buf.u32_congr fun _ _ _ => hb' _ (by omega) (by omega) (by omega)
  constructor
  case mLen => exact h.mLen
  case rest =>
    show sent.rest = (m.withData b).octets.drop 20
    rw [h.rest]
    refine List.ext_getElem ?_ fun i hi hi' => ?_
    · simp only [List.length_drop, Chain.length_withData]
    · have hoctet : (m.withData b).octet (20 + i) = m.octet (20 + i) :=
        Chain.octet_withData _ _ _ (hb _ (by omega) (by omega) (by omega))
      rw [← Chain.octets_getD, ← Chain.octets_getD] at hoctet
      rw [List.length_drop] at hi hi'
      rw [List.getElem_drop, List.getElem_drop]
      rw [List.getD_eq_getElem _ _ (by omega), List.getD_eq_getElem _ _ (by omega)] at hoctet
      exact hoctet.symm
  case vhl =>
    show b' 0 = UInt8.ofNat ((b 0).toNat + 3)
    rw [hb' 0 (by omega) (by omega) (by omega), hb 0 (by omega) (by omega) (by omega), h.vhl]
  case len =>
    show b'.u16 2 = b.u16 2 + 12
    rw [Buf.u16_congr (hb' 2 (by omega) (by omega) (by omega))
      (hb' 3 (by omega) (by omega) (by omega)), h.len,
      Buf.u16_congr (hb 2 (by omega) (by omega) (by omega))
      (hb 3 (by omega) (by omega) (by omega))]
  case ttl => exact httl
  case other =>
    intro i hi
    show b' i = b i
    rcases Nat.lt_or_ge i 10 with hlt | hge
    · rw [hb' i (by omega) (by omega) (by omega), hb i (by omega) (by omega) (by omega)]
      exact h.other i hi
    · rcases Nat.lt_or_ge i 12 with hlt | hge'
      · obtain rfl | rfl : i = 10 ∨ i = 11 := by omega
        · exact h₁₀
        · exact h₁₁
      · rw [hb' i (by omega) (by omega) (by omega), hb i (by omega) (by omega) (by omega)]
        exact h.other i hi
  case dst => exact (hsent32 16 (by omega)).trans h.dst
  case nop => exact (hb' 20 (by omega) (by omega) (by omega)).trans h.nop
  case lsrr => exact (hb' 21 (by omega) (by omega) (by omega)).trans h.lsrr
  case optlen => exact (hb' 22 (by omega) (by omega) (by omega)).trans h.optlen
  case ptr => exact (hb' 23 (by omega) (by omega) (by omega)).trans h.ptr
  case first => exact (hsent32 24 (by omega)).trans h.first
  case second =>
    have hgroup : b.u32 16 = m.data.u32 16 :=
      Buf.u32_congr fun _ _ _ => hb _ (by omega) (by omega) (by omega)
    exact (hsent32 28 (by omega)).trans (h.second.trans hgroup.symm)

theorem Tunnelled.hlen (h : Tunnelled vif m sent) (hfit : (m.data 0).toNat % 16 ≤ 12) :
    (sent.data 0).toNat = (m.data 0).toNat + 3 ∧ ipHlen sent.data = ipHlen m.data + 12 := by
  have hlt := (m.data 0).toNat_lt
  have hvhl : (sent.data 0).toNat = (m.data 0).toNat + 3 := by
    rw [h.vhl, UInt8.toNat_ofNat']
    omega
  refine ⟨hvhl, ?_⟩
  rw [ipHlen, ipHlen, hvhl]
  omega

theorem Tunnelled.length (h : Tunnelled vif m sent) (hm : 20 ≤ m.octets.length) :
    sent.octets.length = m.octets.length + 12 := by
  rw [Chain.length_octets, h.mLen, h.rest, List.length_drop]
  omega

theorem Tunnelled.whole (h : Tunnelled vif m sent) (hfit : (m.data 0).toNat % 16 ≤ 12)
    (hm : m.Whole) (hshort : m.octets.length + 12 ≤ 65535) : sent.Whole := by
  obtain ⟨hvhl, hhlen⟩ := h.hlen hfit
  have hmin := hm.min
  have hlong := hm.hlen
  have hversion := hm.version
  have hlen := h.length (by omega)
  refine ⟨?_, ?_, ?_, ?_, ?_⟩
  · rw [h.mLen]
    omega
  · rw [hvhl]
    omega
  · rw [hhlen]
    omega
  · rw [hhlen, hlen]
    omega
  · have hiplen := hm.len
    show (sent.data.u16 2).toNat = _
    rw [h.len, hlen, UInt16.toNat_add, ← hiplen]
    show _ = (m.data.u16 2).toNat + 12
    have hnat : (m.data.u16 2).toNat = m.octets.length := hiplen
    have htwelve : (12 : UInt16).toNat = 12 := rfl
    omega

/-- A copy in the wrapping of a tunnel. -/
def Wrapped (m₀ : Chain) (vif : Vif) (ttl : UInt8) (m : Chain) : Prop :=
  ∃ m', IsCopy m₀ (ttl + 1) m' ∧ (m'.data 0).toNat % 16 ≤ 12 ∧ Tunnelled vif m' m

theorem Wrapped.ttl_eq (h : Wrapped m₀ vif ttl m) : m.data ipTtlAt = ttl := by
  obtain ⟨m', hcopy, -, ht⟩ := h
  have httl : m'.data 8 = ttl + 1 := hcopy.ttl
  rw [ipTtlAt, ht.ttl, httl, UInt8.add_sub_cancel]

theorem Wrapped.withData (h : Wrapped m₀ vif ttl m) {b : Buf}
    (hb : ∀ i, i ≠ 8 → i ≠ 10 → i ≠ 11 → b i = m.data i) :
    Wrapped m₀ vif (b ipTtlAt) (m.withData b) := by
  obtain ⟨m', hcopy, hfit, ht⟩ := h
  -- what is within has the checksum of what is without
  generalize hb₁ : (m'.data.set8 8 (b 8 + 1)).set16 10 (b.u16 10) = b₁
  have hother : ∀ i, i ≠ 8 → i ≠ 10 → i ≠ 11 → b₁ i = m'.data i := by
    intro i h₈ h₁₀ h₁₁
    rw [← hb₁, Buf.set16_of_ne _ ⟨h₁₀, h₁₁⟩, Buf.set8_of_ne _ h₈]
  have httl : b₁ 8 = b 8 + 1 := by
    rw [← hb₁, Buf.set16_of_ne _ (by omega), Buf.set8_same]
  have hsum : ∀ i, i = 10 ∨ i = 11 → b i = b₁ i := by
    intro i hi
    rw [← hb₁, Buf.set16_u16, if_pos (by omega)]
  have hcopy' := hcopy.withData hother
  rw [ipTtlAt, httl] at hcopy'
  refine ⟨m'.withData b₁, hcopy', ?_, ht.withData hother hb ?_ (hsum 10 (.inl rfl))
    (hsum 11 (.inr rfl))⟩
  · show (b₁ 0).toNat % 16 ≤ 12
    rw [hother 0 (by omega) (by omega) (by omega)]
    exact hfit
  · rw [httl, UInt8.add_sub_cancel]

theorem Wrapped.seal (h : Wrapped m₀ vif ttl m) (host : OutHost) :
    Wrapped m₀ vif ttl (host.seal m) := by
  have hsame := h.withData (b := (host.seal m).data) fun i _ h₁₀ h₁₁ => seal_data host m h₁₀ h₁₁
  rwa [seal_data host m (by rw [ipTtlAt]; omega) (by rw [ipTtlAt]; omega), h.ttl_eq] at hsame

/-- What is taken in has been delivered, with the checksum that is found in it. -/
theorem Received.delivered (h : Received sent.octets got) (hgot : Headed got)
    (hsent : 12 ≤ sent.mLen) : Delivered sent got (got.data.u16 10) where
  octets := by
    refine Chain.octets_ext ?_ fun i => ?_
    · rw [h.length, Chain.length_withData]
    · by_cases hi : 10 ≤ i ∧ i < 10 + 2
      · have hlen := hgot.mLen
        rw [Chain.octet_lt (by omega), Chain.octet_lt (by rw [Chain.withData]; dsimp only; omega)]
        show got.data i = (sent.data.set16 10 (got.data.u16 10)) i
        rw [Buf.set16_u16, if_pos hi]
      · have hdata : sent.data.set16 10 (got.data.u16 10) i = sent.data i :=
          Buf.set16_of_ne _ (by omega)
        rw [Chain.octet_withData _ _ _ hdata, h.octet i (by omega) (by omega), Chain.of_octets]
  header := hgot.mLen
  pullup := hgot.pullup

end

/-! ## Copies by their `ip_ttl` -/

/-- What becomes of a copy for an interface: there are no mbufs for it or it has no room for the
options of a tunnel, or it is given up later, or it is sent. -/
inductive Outcome where
  | failed
  | kept
  | sent
deriving DecidableEq

def Outlet.outcome (o : Outlet) (tunnel fits : Bool) : Outcome :=
  if o.mbufs = false ∨ tunnel = true ∧ fits = false then .failed
  else if tunnel = true ∨ o.multicast = true ∧ o.loif = false then .sent
  else .kept

theorem Outlet.Open.outcome {o : Outlet} (h : o.Open) (tunnel : Bool) :
    o.outcome tunnel true = .sent := by
  obtain ⟨hmbufs, hmulticast, hloif⟩ := h
  rw [Outlet.outcome, hmbufs, hmulticast, hloif]
  simp

/-- A multicast with a time-to-live of zero is not transmitted. -/
def Outcome.sends (x : Outcome) (tunnel : Bool) (ttl : UInt8) : Bool :=
  x = .sent ∧ (tunnel = true ∨ ttl ≠ 1)

/-- The `ip_ttl` that the next interface finds. -/
def Outcome.left (x : Outcome) (tunnel : Bool) (ttl : UInt8) : UInt8 :=
  if x = .failed ∨ tunnel = true then ttl else ttl - 1

/-- Nothing is taken from `ip_ttl` that is not there. -/
theorem Outcome.left_le (x : Outcome) (tunnel : Bool) {ttl : UInt8} (h : 0 < ttl.toNat) :
    (x.left tunnel ttl).toNat ≤ ttl.toNat := by
  have hone : (1 : UInt8) ≤ ttl := UInt8.le_iff_toNat_le.mpr h
  rw [Outcome.left]
  split
  · exact Nat.le_refl _
  · rw [UInt8.toNat_sub_of_le _ _ hone]
    exact Nat.sub_le _ _

theorem VifTable.pos_of_goes {t : VifTable} {rt : Mrt} {ttl : UInt8} {group : UInt32} {i : Nat}
    (h : t.goes rt ttl group i = true) : 0 < ttl.toNat ∧ vifmIsset i rt.children = true := by
  rw [VifTable.goes, Bool.and_eq_true, Bool.and_eq_true, decide_eq_true_eq,
    UInt8.lt_iff_toNat_lt] at h
  exact ⟨by omega, h.1.2⟩

/-- What an interface is handed. -/
structure HandedOut (ck : Bool) (m₀ : Chain) (vif : VifEntry) (ttl : UInt8) (c : Chain) : Prop where
  datagram : Datagram ck c.octets
  copy : if vif.tunnel = true then Wrapped m₀ vif.ends ttl c else IsCopy m₀ ttl c

section

variable {m₀ m : Chain} {ttl : UInt8} {host : OutHost} {ck : Bool}

theorem Outlet.source_of {b : Buf} (h : b.u32 ipSrcAt ≠ 0) (o : Outlet) : o.source b = b := if_neg h

theorem htonsHdr_big (b : Buf) : ByteOrder.big.htonsHdr b = b := by
  rw [ByteOrder.htonsHdr]
  dsimp only [ByteOrder.htons]
  rw [UInt16.ofNat_toNat, Buf.set16_self, UInt16.ofNat_toNat, Buf.set16_self]

/-- A datagram that routers forward. -/
structure Forwardable (m₀ : Chain) : Prop extends Headed m₀ where
  whole : m₀.Whole
  src : m₀.data.u32 ipSrcAt ≠ 0
  short : m₀.octets.length + 12 ≤ 65535

theorem phyintSend_spec (h : IsCopy m₀ ttl m) (h₀ : Forwardable m₀) (hbig : host.bo = .big)
    (hck : ck = true → host.cksumSnd = true) (o : Outlet) (fits : Bool) :
    IsCopy m₀ ((o.outcome false fits).left false ttl) (phyintSend host o m).2 ∧
      if (o.outcome false fits).sends false ttl then
        ∃ c, (phyintSend host o m).1 = some c ∧ IsCopy m₀ (ttl - 1) c ∧ Datagram ck c.octets
      else (phyintSend host o m).1 = none := by
  have holder := h.older (ttl - 1)
  have hsrc : (m.data.set8 ipTtlAt (ttl - 1)).u32 ipSrcAt ≠ 0 := by
    have hsame : (m.data.set8 ipTtlAt (ttl - 1)).u32 ipSrcAt = m₀.data.u32 ipSrcAt :=
      holder.u32 h₀.toHeaded (by decide) (by decide)
    rw [hsame]
    exact h₀.src
  obtain ⟨mbufs, multicast, loif, addr⟩ := o
  rw [phyintSend]
  dsimp only
  rw [h.ttl, Outlet.source_of hsrc, Buf.set8_same]
  cases mbufs with
  | false => exact ⟨h, rfl⟩
  | true =>
      cases multicast with
      | false => exact ⟨holder, rfl⟩
      | true =>
          by_cases hstop : ttl - 1 = 0 ∨ loif = true
          · rw [if_neg (by decide), if_neg (by decide), if_pos hstop]
            cases loif with
            | true => exact ⟨holder, rfl⟩
            | false =>
                obtain rfl : ttl = 1 := by
                  rw [← UInt8.sub_add_cancel ttl 1, hstop.resolve_right (by decide)]
                  rfl
                exact ⟨holder, rfl⟩
          · rw [not_or, Bool.not_eq_true] at hstop
            obtain ⟨hone, rfl⟩ := hstop
            rw [if_neg (by decide), if_neg (by decide), if_neg (by simp [hone]), hbig, htonsHdr_big]
            have hsends : (Outlet.outcome ⟨true, true, false, addr⟩ false fits).sends false ttl =
                true := by
              have hne : ttl ≠ 1 := by
                rintro rfl
                exact hone rfl
              exact decide_eq_true ⟨rfl, .inr hne⟩
            rw [if_pos hsends]
            exact ⟨holder.seal host, _, rfl, holder.seal host,
              datagram_seal (holder.whole h₀.toHeaded h₀.whole) hck⟩

/-- The copy for a tunnel, if it has room for the options. -/
theorem tunnelSend_spec (h : IsCopy m₀ ttl m) (h₀ : Forwardable m₀)
    (hck : ck = true → host.cksumSnd = true) {v : VifEntry} (htunnel : v.tunnel = true)
    (hroom : ipHlen m₀.data ≤ 48) (o : Outlet) :
    ∃ c, tunnelSend v.ends true m = some c ∧
      HandedOut ck m₀ v (ttl - 1) (host.seal (c.withData (o.source c.data))) := by
  have hfit : (m.data 0).toNat % 16 ≤ 12 := by
    rw [← h.hlen h₀.toHeaded, ipHlen] at hroom
    omega
  obtain ⟨c, hc⟩ : ∃ c, tunnelSend v.ends true m = some c :=
    ⟨_, (if_neg (by rw [tunnelLen]; omega)).trans (if_neg (by simp))⟩
  have ht := tunnelSend_tunnelled hc
  have hwhole := ht.whole hfit (h.whole h₀.toHeaded h₀.whole) (h.length ▸ h₀.short)
  have hwrapped : Wrapped m₀ v.ends (ttl - 1) c :=
    ⟨m, by rwa [UInt8.sub_add_cancel], hfit, ht⟩
  have hsrc : c.data.u32 ipSrcAt ≠ 0 := by
    have hsame : c.data.u32 ipSrcAt = m.data.u32 ipSrcAt :=
      Buf.u32_congr fun i hi hlt => ht.other i (by rw [ipSrcAt] at hi hlt; omega)
    rw [hsame, h.u32 h₀.toHeaded (by decide) (by decide)]
    exact h₀.src
  have hsame : c.withData (o.source c.data) = c := by
    rw [Outlet.source_of hsrc]
    rfl
  refine ⟨c, hc, ?_⟩
  rw [hsame]
  refine ⟨datagram_seal hwhole hck, ?_⟩
  rw [if_pos htunnel]
  exact hwrapped.seal host

/-- The copy for an interface, and what the next one finds. -/
theorem mforwardSend_spec (h : IsCopy m₀ ttl m) (h₀ : Forwardable m₀) (hbig : host.bo = .big)
    (hck : ck = true → host.cksumSnd = true) (v : VifEntry) (o : Outlet) :
    IsCopy m₀ ((o.outcome v.tunnel (ipHlen m₀.data ≤ 48)).left v.tunnel ttl)
        (mforwardSend host v o m).2 ∧
      if (o.outcome v.tunnel (ipHlen m₀.data ≤ 48)).sends v.tunnel ttl then
        ∃ c, (mforwardSend host v o m).1 = some c ∧ HandedOut ck m₀ v (ttl - 1) c
      else (mforwardSend host v o m).1 = none := by
  have hhlen := h.hlen h₀.toHeaded
  rw [mforwardSend]
  cases htunnel : v.tunnel with
  | false =>
      obtain ⟨hleft, hsent⟩ := phyintSend_spec h h₀ hbig hck o (ipHlen m₀.data ≤ 48)
      rw [if_neg Bool.false_ne_true]
      refine ⟨hleft, ?_⟩
      split
      · next hsends =>
          rw [if_pos hsends] at hsent
          obtain ⟨c, hc, hcopy, hdatagram⟩ := hsent
          exact ⟨c, hc, hdatagram, by rwa [if_neg (by rw [htunnel]; decide)]⟩
      · next hsends => rwa [if_neg hsends] at hsent
  | true =>
      rw [if_pos rfl]
      refine ⟨?_, ?_⟩
      · rw [Outcome.left, if_pos (.inr rfl)]
        exact h
      by_cases hmade : o.mbufs = true ∧ ipHlen m₀.data ≤ 48
      · obtain ⟨hmbufs, hroom⟩ := hmade
        have hsends : (o.outcome true (ipHlen m₀.data ≤ 48)).sends true ttl = true := by
          rw [Outlet.outcome, if_neg (by simp [hmbufs, hroom]), if_pos (.inl rfl)]
          exact decide_eq_true ⟨rfl, .inl rfl⟩
        obtain ⟨c, hc, hout⟩ := @tunnelSend_spec _ _ _ host _ h h₀ hck _ htunnel hroom o
        rw [if_pos hsends, hmbufs, hc]
        exact ⟨_, rfl, hout⟩
      · have hfailed : o.outcome true (ipHlen m₀.data ≤ 48) = .failed := by
          refine if_pos ?_
          rw [not_and, Nat.not_le] at hmade
          cases hmbufs : o.mbufs with
          | false => exact .inl rfl
          | true => exact .inr ⟨rfl, decide_eq_false (Nat.not_le.mpr (hmade hmbufs))⟩
        rw [hfailed, if_neg (by simp [Outcome.sends])]
        have hnone : tunnelSend v.ends o.mbufs m = none := by
          by_contra hcon
          obtain ⟨c, hc⟩ := Option.ne_none_iff_exists'.mp hcon
          obtain ⟨hfit, hmbufs⟩ := tunnelSend_fits hc
          refine hmade ⟨hmbufs, ?_⟩
          rw [← hhlen, ipHlen]
          omega
        rw [hnone]
        rfl

/-- The datagram is handed back as it was, but for the checksum and what the copies have taken off
`ip_ttl`. -/
theorem mforwardLoop_left (h : IsCopy m₀ ttl m) (h₀ : Forwardable m₀) (hbig : host.bo = .big)
    {t : VifTable} (ht : t.Coherent) (rt : Mrt) (outlets : Nat → Outlet) (vifs : List Nat) :
    ∃ left, left.toNat ≤ ttl.toNat ∧
      IsCopy m₀ left (mforwardLoop rt host outlets vifs m t).2.1 := by
  induction vifs generalizing m ttl t with
  | nil => exact ⟨ttl, Nat.le_refl _, h⟩
  | cons i vifs ih =>
      obtain ⟨hgoes, -, hcoh⟩ :=
        @mforwardTest_spec t rt (m.data ipTtlAt) (m.data.u32 ipDstAt) i ht
      rw [mforwardLoop]
      dsimp only
      rw [hgoes, h.ttl]
      rw [h.ttl] at hcoh
      split
      · next hchild =>
          obtain ⟨hsend, -⟩ := @mforwardSend_spec _ _ _ _ false h h₀ hbig
            (fun hck => absurd hck Bool.false_ne_true) (t.viftable i) (outlets i)
          obtain ⟨left, hle, hcopy⟩ := ih hsend hcoh
          exact ⟨left, hle.trans (Outcome.left_le _ _ (VifTable.pos_of_goes hchild).1), hcopy⟩
      · exact ih h hcoh

end

/-! ## What comes to a router -/

/-- The way of a datagram through `ipintr` to `ip_mforward`. No interface has a multicast address of
its own. -/
def ipintrMforward (c : MrtConf) (r : Router) (h : InHost) (outlets : Nat → Outlet) (ifp : Nat)
    (m : Chain) (s : Mrouter) : Option Mforwarded :=
  match h.ipintrHead m with
  | none => some ⟨true, [], m, s⟩
  | some m =>
      match ipDooptions r m.data with
      | .process b =>
          let m := m.withData b
          if inMulticast (b.u32 ipDstAt) = true then ipMforward c h.toOutHost outlets ifp m s
          else some ⟨false, [], m, s⟩
      | _ => some ⟨true, [], m, s⟩

/-- A datagram to a group that does not look as if it came through a tunnel. -/
structure Grouped (m₀ : Chain) : Prop where
  headed : Headed m₀
  group : inMulticast (m₀.data.u32 ipDstAt) = true
  plain : ipHlen m₀.data < 32 ∨ m₀.data 21 ≠ ipoptLsrr

section

variable {c : MrtConf} {r : Router} {h : InHost} {outlets : Nat → Outlet} {ifp : Nat}
  {m₀ m sent got : Chain} {ttl : UInt8} {vif : Vif} {s : Mrouter} {ck : Bool}

theorem ipintrMforward_process {b : Buf} (hm : h.ipintrHead got = some m)
    (hopts : ipDooptions r m.data = .process b) (hgroup : inMulticast (b.u32 ipDstAt) = true) :
    ipintrMforward c r h outlets ifp got s =
      ipMforward c h.toOutHost outlets ifp (m.withData b) s := by
  rw [ipintrMforward, hm]
  dsimp only
  rw [hopts]
  exact if_pos hgroup

theorem ipMforward_phyint {host : OutHost} (hm : ipMforwardArrival m = .phyint) :
    ipMforward c host outlets ifp m s = mforwardRoute c host outlets ifp 0 m s := by
  rw [ipMforward, hm]

theorem ipMforward_tunnel {host : OutHost} {src : UInt32} {m' : Chain}
    (hm : ipMforwardArrival m = .tunnel src m') :
    ipMforward c host outlets ifp m s = mforwardRoute c host outlets ifp src m' s := by
  rw [ipMforward, hm]

/-- Whether an option passes is a matter of its own octets. -/
theorem Passes.congr {dst : UInt32} {b b' : Buf} {cp cnt : Nat} (h : Passes r dst b cp)
    (hcnt : 2 ≤ cnt) (hle : (b (cp + 1)).toNat ≤ cnt)
    (heq : ∀ i, cp ≤ i → i < cp + cnt → b' i = b i) : Passes r dst b' cp := by
  have h₀ : b' cp = b cp := heq _ le_rfl (by omega)
  have h₁ : b' (cp + 1) = b (cp + 1) := heq _ (by omega) (by omega)
  simp only [Passes, h₀, h₁] at h ⊢
  split at h
  · exact h.elim
  · next hsrc =>
      rw [if_neg hsrc]
      split at h
      · next hrr =>
          obtain ⟨hmin, hroom⟩ := h
          have hptr := (b (cp + 2)).toNat_lt
          have h₂ : b' (cp + 2) = b (cp + 2) := by
            simp only [noRoom, decide_eq_true_eq] at hroom
            exact heq _ (by omega) (by omega)
          rw [if_pos hrr, h₂]
          exact ⟨hmin, hroom⟩
      · next hrr =>
          rw [if_neg hrr]
          split at h
          · next hts =>
              obtain ⟨hlen, hptr, hroom, hflg⟩ := h
              have h₂ : b' (cp + 2) = b (cp + 2) := heq _ (by omega) (by omega)
              have h₃ : b' (cp + 3) = b (cp + 3) := heq _ (by omega) (by omega)
              have hsin : b'.u32 (cp + (b (cp + 2)).toNat - 1) =
                  b.u32 (cp + (b (cp + 2)).toNat - 1) :=
                Buf.u32_congr fun i hi hlt => heq i (by omega) (by omega)
              rw [if_pos hts, h₂, h₃, hsin]
              exact ⟨hlen, hptr, hroom, hflg⟩
          · next hts =>
              rw [if_neg hts]
              trivial

theorem AllPass.congr {dst : UInt32} {b b' : Buf} {cp cnt : Nat} (h : AllPass r dst b cp cnt)
    (heq : ∀ i, cp ≤ i → i < cp + cnt → b' i = b i) : AllPass r dst b' cp cnt := by
  induction h with
  | @stop cp cnt hstop =>
      refine .stop ?_
      rcases Nat.eq_zero_or_pos cnt with h₀ | hpos
      · exact .inl h₀
      · exact hstop.imp_right fun heol => (heq cp le_rfl (by omega)).trans heol
  | @nop cp cnt hnop _ ih =>
      exact .nop ((heq cp le_rfl (by omega)).trans hnop)
        (ih fun i hi hlt => heq i (by omega) (by omega))
  | @opt cp cnt len hnop heol hpass hlen hne h2 _ ih =>
      have h₀ := heq cp le_rfl (by omega)
      have h₁ := heq (cp + 1) (by omega) (by omega)
      exact .opt (h₀ ▸ hnop) (h₀ ▸ heol) (hpass.congr h2 (by omega) heq) (by rw [h₁, hlen]) hne h2
        (ih fun i hi hlt => heq i (by omega) (by omega))

/-- From a LAN the copy comes to `ip_mforward` as it is. -/
theorem IsCopy.ipintr (hg : Grouped m₀) (hcopy : IsCopy m₀ ttl sent)
    (hsent : Datagram ck sent.octets) (hready : h.Ready ck) (hgot : sent.octets <+: got.octets)
    (hpass : AllPass r (m₀.data.u32 ipDstAt) m₀.data 20 (ipHlen m₀.data - 20)) :
    ∃ m, IsCopy m₀ ttl m ∧
      ipintrMforward c r h outlets ifp got s = mforwardRoute c h.toOutHost outlets ifp 0 m s := by
  obtain ⟨m, hm, -, hheaded, hrec⟩ := ipintrHead_spec hready hsent hgot
  have hm₀ := hcopy.received hrec hheaded
  have hhlen := hm₀.hlen hg.headed
  have hdst : m.data.u32 ipDstAt = m₀.data.u32 ipDstAt := hm₀.u32 hg.headed (by decide) (by decide)
  have hloop : dooptionsLoop r (m₀.data.u32 ipDstAt) (ipHlen m₀.data - 20) (20 + 0)
      (ipHlen m₀.data - 20) false m.data = .next false m.data :=
    dooptionsLoop_passes hpass le_rfl (hm₀.options hg.headed)
  rw [← hdst] at hloop
  have hopts : ipDooptions r m.data = .process m.data :=
    ipDooptions_of_loop (by rw [hhlen]) hloop
  have hplain : (m.data 0).toNat % 16 < (20 + tunnelLen) / 4 ∨ m.data 21 ≠ ipoptLsrr := by
    rcases Nat.lt_or_ge (ipHlen m₀.data) 32 with hlt | hge
    · rw [← hhlen, ipHlen] at hlt
      rw [tunnelLen]
      exact .inl (by omega)
    · right
      rw [hm₀.option hg.headed (by omega) (by omega)]
      exact hg.plain.resolve_left (by omega)
  have hphyint : ipMforwardArrival m = .phyint := if_pos hplain
  have hgroup : inMulticast (m.data.u32 ipDstAt) = true := by
    rw [hdst]
    exact hg.group
  exact ⟨m, hm₀, (ipintrMforward_process hm hopts hgroup).trans (ipMforward_phyint hphyint)⟩

/-- From a tunnel it comes out of its wrapping. -/
theorem Wrapped.ipintr (hg : Grouped m₀) (hwrapped : Wrapped m₀ vif ttl sent)
    (hsent : Datagram ck sent.octets) (hready : h.Ready ck) (hgot : sent.octets <+: got.octets)
    (hlcl : vif.lclAddr ≠ 0) (hown : r.ifaIfwithaddr vif.rmtAddr ≠ none)
    (hrt : r.ipRtaddr (m₀.data.u32 ipDstAt) ≠ none)
    (hpass : AllPass r vif.rmtAddr m₀.data 20 (ipHlen m₀.data - 20)) :
    ∃ m, IsCopy m₀ ttl m ∧ ipintrMforward c r h outlets ifp got s =
      mforwardRoute c h.toOutHost outlets ifp vif.lclAddr m s := by
  obtain ⟨m₁, hcopy, hfit, ht⟩ := hwrapped
  obtain ⟨m, hm, -, hheaded, hrec⟩ := ipintrHead_spec hready hsent hgot
  have hd := hrec.delivered hheaded (by rw [ht.mLen]; omega)
  obtain ⟨own, hown⟩ := Option.ne_none_iff_exists'.mp hown
  obtain ⟨ia, hia⟩ := Option.ne_none_iff_exists'.mp hrt
  have hhlen := hcopy.hlen hg.headed
  have hdst : m₁.data.u32 ipDstAt = m₀.data.u32 ipDstAt :=
    hcopy.u32 hg.headed (by decide) (by decide)
  have hpass' : AllPass r vif.rmtAddr m₁.data 20 (ipHlen m₁.data - 20) := by
    rw [hhlen]
    exact hpass.congr (hcopy.options hg.headed)
  rw [← hdst] at hia
  have hgroup : inMulticast (m₁.data.u32 ipDstAt) = true := by
    rw [hdst]
    exact hg.group
  have hopts := ipDooptions_tunnelled hd ht hcopy.headed hfit hown hia hgroup hpass'
  have hrecorded := hd.recorded ht hcopy.headed hfit ia
  have harrive := hrecorded.arrival ht hcopy.headed hfit hlcl
  obtain ⟨m', harrive', hoctets⟩ := ipMforwardArrival_tunnelled ia hd ht hcopy.headed hfit hlcl
  rw [harrive] at harrive'
  cases harrive'
  have hgroup' : inMulticast ((tunnelRecorded m.data (m₁.data.u32 ipDstAt) ia).u32 ipDstAt) =
      true := by
    rw [show (tunnelRecorded m.data (m₁.data.u32 ipDstAt) ia).u32 ipDstAt = _ from hrecorded.dst]
    exact hgroup
  refine ⟨_, ?_, (ipintrMforward_process hm hopts hgroup').trans (ipMforward_tunnel harrive)⟩
  have hlong := hd.long ht hcopy.headed hfit
  have hlen : ∀ b, (tunnelDelete (m.withData b)).mLen = m.mLen - 12 := fun _ => rfl
  have hfirst : (tunnelDelete (m.withData (tunnelRecorded m.data (m₁.data.u32 ipDstAt) ia))).data
      0 = m₁.data 0 := by
    rw [hrecorded.header ht hfit (by omega), Buf.set16_of_ne _ (by omega),
      Buf.set8_of_ne _ (by rw [ipTtlAt]; omega)]
  have hpull := hd.pullup
  have hgot := (hd.hlen ht hfit).2
  have httl : m₁.data ipTtlAt - 1 = ttl := by
    rw [hcopy.ttl, UInt8.add_sub_cancel]
  rw [← httl]
  refine (hcopy.older _).delivered ⟨hoctets, ?_, ?_⟩
  · rw [hlen]
    omega
  · rw [hlen, ipHlen, hfirst]
    show ipHlen m₁.data ≤ _
    omega

end

end VxWorks.Netinet
