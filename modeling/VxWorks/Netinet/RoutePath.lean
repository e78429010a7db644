import VxWorks.Netinet.IpSend
import VxWorks.Netinet.OptionCopy
import VxWorks.Netinet.RouteHop

/-!
# There and back by a source route (ip_input.c, ip_output.c)

A user's source route from `setsockopt` to the last host of the route, and the answer's back:
`ip_pcbopts` takes the first hop out of the option, `ip_insertoptions` puts both into the
header, each host of the route enters itself, the last one saves what was entered, and
`ip_srcroute` makes of that a block of options which `ip_insertoptions` takes as it takes the
user's. The answer goes by the same hosts, backwards.

Between the hosts is a `TwoWay`: each host of the route has the address that the datagram is for,
and a route to the next one, and on the way back it has the address it has entered, and a route
to the one before. There may be others in between, where the route is loose.
-/

namespace VxWorks.Netinet

open VxWorks.Lib

/-! ## The way -/

/-- A datagram of up to `n` octets for `dst` with `rest` before it gets by the gateways to `fin`, and
they enter `out`. -/
inductive Way (opt : UInt8) (n : Nat) :
    UInt32 → List UInt32 → List Gateway → List UInt32 → UInt32 → Prop
  | nil (dst : UInt32) : Way opt n dst [] [] [] dst
  | pass {g : Gateway} {dst fin : UInt32} {rest out : List UInt32} {gs : List Gateway} :
      opt = ipoptLsrr → g.router.ifaIfwithaddr dst = none → g.ours dst = false →
      inMulticast dst = false → dst ≠ 0xffffffff ∧ dst ≠ 0 → g.forwarding = true →
      g.Forwards n dst → Way opt n dst rest gs out fin → Way opt n dst rest (g :: gs) out fin
  | hop {g : Gateway} {dst a ia fin : UInt32} {rest out : List UInt32} {gs : List Gateway} :
      (g.router.ifaIfwithaddr dst).isSome → routeIa g.router opt a = some ia →
      inMulticast a = false → g.Forwards n a → Way opt n a rest gs out fin →
      Way opt n dst (a :: rest) (g :: gs) (ia :: out) fin

/-- The octets on link after link. -/
def travel : List Gateway → List UInt8 → Option (List UInt8)
  | [], l => some l
  | g :: gs, l =>
      match g.ipintr l with
      | .forwarded l => travel gs l
      | _ => none

variable {opt : UInt8} {dst mid fin src prev first : UInt32} {rest rest' out out' : List UInt32}
  {gs gs' : List Gateway} {cp k n ttl : Nat} {l₀ l : List UInt8} {b : Buf} {ck : Bool}

theorem Way.length (h : Way opt n dst rest gs out fin) : out.length = rest.length := by
  induction h with
  | nil => rfl
  | pass _ _ _ _ _ _ _ _ ih => exact ih
  | hop _ _ _ _ _ ih => rw [List.length_cons, List.length_cons, ih]

theorem Way.append (h : Way opt n dst rest gs out mid) (h' : Way opt n mid rest' gs' out' fin) :
    Way opt n dst (rest ++ rest') (gs ++ gs') (out ++ out') fin := by
  induction h with
  | nil => exact h'
  | pass hloose hhere hours hmulti hdst hforwarding hg _ ih =>
      exact .pass hloose hhere hours hmulti hdst hforwarding hg (ih h')
  | hop hhere hia hmulti hg _ ih => exact .hop hhere hia hmulti hg (ih h')

/-- The way is gone, one host after the other. -/
theorem Way.travel (h : Way opt n dst rest gs out' fin)
    (hl : OnWire ck l₀ cp opt dst (ttl + gs.length) out rest l) (hopt : SourceRouteOpt opt)
    (httl : 0 < ttl) (hsrc : (Buf.of l₀).u32 ipSrcAt ≠ 0) (hlong : l₀.length ≤ n)
    (hready : ∀ g ∈ gs, g.Ready ck) :
    ∃ l', travel gs l = some l' ∧ OnWire ck l₀ cp opt fin ttl (out ++ out') [] l' := by
  induction h generalizing out l with
  | nil => exact ⟨l, rfl, by rwa [List.append_nil]⟩
  | @pass g dst fin rest out' gs hloose hhere hours hmulti hdst hforwarding hg _ ih =>
      subst hloose
      obtain ⟨hfirst, hrest⟩ := List.forall_mem_cons.mp hready
      obtain ⟨l₁, hsent, hl₁⟩ := ipintr_pass hl (Nat.add_pos_left httl _) hsrc hlong hfirst hhere
        hours hmulti hdst hforwarding hg
      obtain ⟨l', htravel, hl'⟩ := ih hl₁ hrest
      refine ⟨l', ?_, hl'⟩
      rw [Netinet.travel, hsent]
      exact htravel
  | @hop g dst a ia fin rest out' gs hhere hia hmulti hg _ ih =>
      obtain ⟨hfirst, hrest⟩ := List.forall_mem_cons.mp hready
      obtain ⟨l₁, hsent, hl₁⟩ :=
        ipintr_hop hl hopt (Nat.add_pos_left httl _) hsrc hlong hfirst hhere
        hia hmulti hg
      obtain ⟨l', htravel, hl'⟩ := ih hl₁ hrest
      refine ⟨l', ?_, ?_⟩
      · rw [Netinet.travel, hsent]
        exact htravel
      · rwa [List.append_assoc] at hl'

/-- A way from `src`, or from the host that has entered `prev`, that can also be gone back. -/
inductive TwoWay (opt : UInt8) (n : Nat) :
    UInt32 → UInt32 → List UInt32 → List Gateway → List UInt32 → UInt32 → Prop
  | nil (prev dst : UInt32) : TwoWay opt n prev dst [] [] [] dst
  | pass {g : Gateway} {prev dst fin : UInt32} {rest out : List UInt32} {gs : List Gateway} :
      opt = ipoptLsrr → g.forwarding = true →
      (∀ d ∈ [dst, prev], g.router.ifaIfwithaddr d = none ∧ g.ours d = false ∧
        inMulticast d = false ∧ (d ≠ 0xffffffff ∧ d ≠ 0) ∧ g.Forwards n d) →
      TwoWay opt n prev dst rest gs out fin → TwoWay opt n prev dst rest (g :: gs) out fin
  | hop {g : Gateway} {prev dst a ia fin : UInt32} {rest out : List UInt32} {gs : List Gateway} :
      (g.router.ifaIfwithaddr dst).isSome → (g.router.ifaIfwithaddr ia).isSome →
      routeIa g.router opt a = some ia → (routeIa g.router opt prev).isSome →
      (∀ d ∈ [a, prev], inMulticast d = false ∧ g.Forwards n d) →
      TwoWay opt n ia a rest gs out fin →
      TwoWay opt n prev dst (a :: rest) (g :: gs) (ia :: out) fin

theorem TwoWay.there (h : TwoWay opt n prev dst rest gs out fin) :
    Way opt n dst rest gs out fin := by
  induction h with
  | nil => exact .nil _
  | pass hloose hforwarding hboth _ ih =>
      obtain ⟨hhere, hours, hmulti, hdst, hg⟩ := hboth _ List.mem_cons_self
      exact .pass hloose hhere hours hmulti hdst hforwarding hg ih
  | hop hhere _ hia _ hboth _ ih =>
      obtain ⟨hmulti, hg⟩ := hboth _ List.mem_cons_self
      exact .hop hhere hia hmulti hg ih

/-- Backwards: the last that was entered is the first to go to. -/
theorem TwoWay.back (h : TwoWay opt n prev dst rest gs out fin) {d : UInt32} {ds : List UInt32}
    (hback : (prev :: out).reverse = d :: ds) : ∃ out', Way opt n d ds gs.reverse out' prev := by
  induction h generalizing d ds with
  | nil prev dst =>
      cases hback
      exact ⟨[], .nil _⟩
  | @pass g prev dst fin rest out gs hloose hforwarding hboth _ ih =>
      obtain ⟨out', hway⟩ := ih hback
      obtain ⟨hhere, hours, hmulti, hdst, hg⟩ := hboth prev (by simp)
      have hlast : Way opt n prev [] [g] [] prev :=
        .pass hloose hhere hours hmulti hdst hforwarding hg (.nil _)
      have hall := hway.append hlast
      rw [List.append_nil, List.append_nil, ← List.reverse_cons] at hall
      exact ⟨out', hall⟩
  | @hop g prev dst a ia fin rest out gs _ howns _ hback' hboth _ ih =>
      obtain ⟨d', ds', hd'⟩ : ∃ d' ds', (ia :: out).reverse = d' :: ds' :=
        List.exists_cons_of_ne_nil (by simp)
      obtain ⟨out', hway⟩ := ih hd'
      obtain ⟨ia', hia'⟩ := Option.isSome_iff_exists.mp hback'
      obtain ⟨hmulti, hg⟩ := hboth prev (by simp)
      have hlast : Way opt n ia [prev] [g] [ia'] prev := .hop howns hia' hmulti hg (.nil _)
      have hall := hway.append hlast
      rw [List.reverse_cons, hd'] at hback
      obtain ⟨rfl, rfl⟩ := List.cons.inj hback
      rw [← List.reverse_cons] at hall
      exact ⟨_, hall⟩

/-! ## Blocks of options with a route -/

/-- The block leads to `first`, and its option, behind `k` NOPs, to `rest`. -/
structure RouteBlock (m : OptMbuf) (k : Nat) (opt : UInt8) (first : UInt32) (rest : List UInt32) :
    Prop where
  four : m.len % 4 = 0
  most : m.len ≤ 44
  first : m.data.u32 0 = first
  nops : ∀ i, 4 ≤ i → i < 4 + k → m.data i = ipoptNop
  kind : m.data (4 + k) = opt
  olen : (m.data (4 + k + 1)).toNat = 3 + 4 * rest.length
  ptr : (m.data (4 + k + 2)).toNat = 4
  route : addrs m.data (4 + k + 3) rest.length = rest
  fits : 4 + k + (3 + 4 * rest.length) ≤ m.len
  last : 4 + k + (3 + 4 * rest.length) = m.len ∨ m.data (4 + k + (3 + 4 * rest.length)) = ipoptEol

/-- What `ip_srcroute` makes is such a block. -/
theorem Reversed.block {p : OptMbuf} (h : Reversed p b cp rest.length src) (hkind : b cp = opt)
    (holen : (b (cp + 1)).toNat = 3 + 4 * rest.length) (hmax : rest.length ≤ 9)
    (hroute : (hops b cp rest.length).reverse ++ [src] = first :: rest) :
    RouteBlock p 1 opt first rest := by
  have hall : p.data.u32 0 :: addrs p.data 8 rest.length = first :: rest := h.route.trans hroute
  obtain ⟨hfirst, hrest⟩ := List.cons.inj hall
  have hlen := h.len
  exact
    { four := by omega
      most := by omega
      first := hfirst
      nops := by
        intro i hi hlt
        obtain rfl : i = 4 := by omega
        exact h.nop
      kind := h.opt.trans hkind
      olen := (congrArg UInt8.toNat h.olen).trans holen
      ptr := congrArg UInt8.toNat h.offset
      route := hrest
      fits := by omega
      last := .inl (by omega) }

/-- A source route as a user writes it. -/
def routeOption (opt : UInt8) (l : List UInt32) : List UInt8 :=
  opt :: UInt8.ofNat (3 + 4 * l.length) :: 4 :: l.flatMap put32

/-- Options with NOPs before the route and the end of the list behind it. -/
def routeOptions (opt : UInt8) (k e : Nat) (l : List UInt32) : List UInt8 :=
  List.replicate k ipoptNop ++ (routeOption opt l ++ List.replicate e ipoptEol)

/-- The mbuf in `inp_options`. -/
def PcbOpts.mbuf (p : PcbOpts) : OptMbuf := ⟨4 + p.opts.length, Buf.of (p.dst ++ p.opts)⟩

@[simp] theorem length_flatMap_put32 (l : List UInt32) :
    (l.flatMap put32).length = 4 * l.length := by
  induction l with
  | nil => rfl
  | cons a l ih =>
      rw [List.flatMap_cons, List.length_append, ih, length_put32, List.length_cons]
      omega

@[simp] theorem length_routeOptions (opt : UInt8) (k e : Nat) (l : List UInt32) :
    (routeOptions opt k e l).length = k + (3 + 4 * l.length + e) := by
  simp only [routeOptions, routeOption, List.length_append, List.length_replicate, List.length_cons,
    length_flatMap_put32]
  omega

theorem pcboptsLoop_eols (n e : Nat) (d : List UInt8) (h : e ≤ n) :
    pcboptsLoop n d (List.replicate e ipoptEol) = some ⟨d, List.replicate e ipoptEol⟩ := by
  cases e with
  | zero => cases n <;> rfl
  | succ e =>
      obtain ⟨n, rfl⟩ : ∃ j, n = j + 1 := ⟨n - 1, by omega⟩
      rfl

theorem pcboptsLoop_nops (k n : Nat) (d cp : List UInt8) :
    pcboptsLoop (k + n) d (List.replicate k ipoptNop ++ cp) =
      (pcboptsLoop n d cp).map fun p => { p with opts := List.replicate k ipoptNop ++ p.opts } := by
  induction k with
  | zero => simp
  | succ k ih =>
      rw [Nat.add_right_comm, List.replicate_succ, List.cons_append]
      show (pcboptsLoop (k + n) d (List.replicate k ipoptNop ++ cp)).map _ = _
      rw [ih, Option.map_map]
      rfl

/-- The first hop is taken out of the route. -/
theorem pcboptsLoop_route (hopt : SourceRouteOpt opt) {a : UInt32} {as : List UInt32} {n e : Nat}
    (hn : e < n) (hmax : 3 + 4 * (as.length + 1) < 256) (d : List UInt8) :
    pcboptsLoop n d (routeOption opt (a :: as) ++ List.replicate e ipoptEol) =
      some ⟨put32 a, routeOption opt as ++ List.replicate e ipoptEol⟩ := by
  obtain ⟨n, rfl⟩ : ∃ j, n = j + 1 := ⟨n - 1, by omega⟩
  have hroute : opt = ipoptLsrr ∨ opt = ipoptSsrr := hopt
  have hlong : (UInt8.ofNat (3 + 4 * (a :: as).length)).toNat = 7 + 4 * as.length := by
    rw [UInt8.toNat_ofNat', List.length_cons]
    omega
  have hshort : UInt8.ofNat (3 + 4 * (a :: as).length) - 4 = UInt8.ofNat (3 + 4 * as.length) := by
    rw [← UInt8.toNat_inj, UInt8.toNat_sub_of_le, hlong, UInt8.toNat_ofNat']
    · show 7 + 4 * as.length - 4 = _
      omega
    · rw [UInt8.le_iff_toNat_le, hlong]
      show 4 ≤ _
      omega
  rw [routeOption, List.flatMap_cons, List.cons_append, pcboptsLoop.eq_def]
  dsimp only
  rw [if_neg hopt.ne.1, if_neg hopt.ne.2]
  dsimp only [List.cons_append]
  rw [hlong, if_neg (by simp; omega), if_pos hroute, if_neg (by rw [ipoptMinoff]; omega), hshort]
  have hfirst : List.take 4 (List.drop 1 (4 :: (put32 a ++ as.flatMap put32 ++
      List.replicate e ipoptEol))) = put32 a := by
    rw [List.drop_succ_cons, List.drop_zero, List.append_assoc]
    exact List.take_left' (length_put32 a)
  have hrest : opt :: UInt8.ofNat (3 + 4 * as.length) ::
      (List.take 1 (4 :: (put32 a ++ as.flatMap put32 ++ List.replicate e ipoptEol)) ++
        List.drop 5 (4 :: (put32 a ++ as.flatMap put32 ++ List.replicate e ipoptEol))) =
      routeOption opt as ++ List.replicate e ipoptEol := by
    rw [List.drop_succ_cons, List.append_assoc, List.drop_left' (length_put32 a)]
    rfl
  have hlen : (routeOption opt as).length = 7 + 4 * as.length - 4 := by
    simp only [routeOption, List.length_cons, length_flatMap_put32]
    omega
  rw [hfirst, hrest, ← hlen, List.drop_left, List.take_left, pcboptsLoop_eols n e _ (by omega)]
  rfl

/-- `ip_pcbopts` takes a user's source route, and keeps the first hop apart. -/
theorem ipPcbopts_route (hopt : SourceRouteOpt opt) {k e : Nat} {a : UInt32} {as : List UInt32}
    (hfour : (routeOptions opt k e (a :: as)).length % 4 = 0)
    (hmost : (routeOptions opt k e (a :: as)).length ≤ 44) :
    ipPcbopts true (routeOptions opt k e (a :: as)) =
      some (some ⟨put32 a, routeOptions opt k e as⟩) := by
  have hlen := length_routeOptions opt k e (a :: as)
  rw [List.length_cons] at hlen
  have hne : routeOptions opt k e (a :: as) ≠ [] := by
    intro hnil
    rw [hnil, List.length_nil] at hlen
    omega
  have hloop : pcboptsLoop (routeOptions opt k e (a :: as)).length [0, 0, 0, 0]
      (routeOptions opt k e (a :: as)) = some ⟨put32 a, routeOptions opt k e as⟩ := by
    rw [hlen, routeOptions, pcboptsLoop_nops, pcboptsLoop_route hopt (by omega) (by omega)]
    rfl
  rw [ipPcbopts, if_neg hne, if_neg (not_not.mpr hfour), if_neg (by decide), hloop]
  dsimp only
  rw [if_neg]
  rw [length_routeOptions]
  omega

theorem addrs_of_flatMap (front back : List UInt8) (l : List UInt32) :
    addrs (Buf.of (front ++ (l.flatMap put32 ++ back))) front.length l.length = l := by
  induction l generalizing front with
  | nil => rfl
  | cons a l ih =>
      have hfirst :
          (Buf.of (front ++ (put32 a ++ (l.flatMap put32 ++ back)))).u32 front.length = a := by
        refine Buf.u32_of_slice ?_
        have hholds := Buf.holds_of front (put32 a) (l.flatMap put32 ++ back)
        refine List.ext_getElem (by simp) ?_
        intro i hi hi'
        rw [← hholds i hi']
        simp [Buf.slice]
      have hrest := ih (front ++ put32 a)
      rw [List.length_append, length_put32, List.append_assoc] at hrest
      rw [List.length_cons, addrs, List.flatMap_cons, List.append_assoc, hfirst, hrest]

/-- What `ip_pcbopts` makes is such a block. -/
theorem routeBlock_pcbopts {k e : Nat} {a : UInt32} {as : List UInt32}
    (hfour : (routeOptions opt k e as).length % 4 = 0)
    (hmost : (routeOptions opt k e as).length ≤ 40) :
    RouteBlock (PcbOpts.mbuf ⟨put32 a, routeOptions opt k e as⟩) k opt a as := by
  have hlen := length_routeOptions opt k e as
  have hsplit : put32 a ++ routeOptions opt k e as = put32 a ++ (List.replicate k ipoptNop ++
      ([opt, UInt8.ofNat (3 + 4 * as.length), 4] ++
        (as.flatMap put32 ++ List.replicate e ipoptEol))) := by
    simp [routeOptions, routeOption]
  have hfront : put32 a ++ routeOptions opt k e as =
      (put32 a ++ List.replicate k ipoptNop ++ [opt, UInt8.ofNat (3 + 4 * as.length), 4]) ++
        (as.flatMap put32 ++ List.replicate e ipoptEol) := by
    rw [hsplit]
    simp
  have hholds : (Buf.of (put32 a ++ routeOptions opt k e as)).Holds 0
      (put32 a ++ routeOptions opt k e as) := by
    have h := Buf.holds_of [] (put32 a ++ routeOptions opt k e as) []
    rwa [List.append_nil] at h
  have hroute := addrs_of_flatMap
    (put32 a ++ List.replicate k ipoptNop ++ [opt, UInt8.ofNat (3 + 4 * as.length), 4])
    (List.replicate e ipoptEol) as
  rw [← hfront] at hroute
  rw [hsplit, Buf.holds_append, Buf.holds_append, Buf.holds_append, Buf.holds_append, ← hsplit]
    at hholds
  obtain ⟨hfirst, hnops, hopt, -, heols⟩ := hholds
  simp only [length_put32, List.length_replicate, List.length_cons, List.length_nil,
    length_flatMap_put32, Nat.zero_add] at hnops hopt heols
  have hdata : (PcbOpts.mbuf ⟨put32 a, routeOptions opt k e as⟩).data =
      Buf.of (put32 a ++ routeOptions opt k e as) := rfl
  have hall : (PcbOpts.mbuf ⟨put32 a, routeOptions opt k e as⟩).len =
      4 + (k + (3 + 4 * as.length + e)) := congrArg (4 + ·) hlen
  refine
    { four := by omega
      most := by omega
      first := ?_
      nops := ?_
      kind := hopt 0 (by simp)
      olen := ?_
      ptr := congrArg UInt8.toNat (hopt 2 (by simp))
      route := ?_
      fits := by omega
      last := ?_ }
  · rw [hdata]
    refine Buf.u32_of_slice (List.ext_getElem (by simp) ?_)
    intro i hi hi'
    rw [← hfirst i hi']
    simp [Buf.slice]
  · intro i hi hlt
    obtain ⟨j, rfl⟩ : ∃ j, i = 4 + j := ⟨i - 4, by omega⟩
    rw [hdata, hnops j (by simp; omega), List.getElem_replicate]
  · rw [hdata, hopt 1 (by simp)]
    show (UInt8.ofNat (3 + 4 * as.length)).toNat = _
    rw [UInt8.toNat_ofNat']
    omega
  · rw [hdata]
    simpa [Nat.add_assoc] using hroute
  · rcases Nat.eq_zero_or_pos e with rfl | hpos
    · exact .inl (by omega)
    · right
      have heol := heols 0 (by simpa using hpos)
      rw [List.getElem_replicate] at heol
      rw [hdata, ← heol]
      congr 1
      omega

/-! ## Sending -/

/-- What an interface was handed. -/
def Sent.octets (s : Sent) : List UInt8 := s.hdr ++ s.data

def Sent.buf (s : Sent) : Buf := Buf.of s.octets

/-- The octets of a packet that is sent. -/
structure SentAs (s : Sent) (p : OutPkt) : Prop where
  hl : s.buf 0 = UInt8.ofNat (p.ip.v.val * 16 + p.ip.hl.val)
  ttl : s.buf ipTtlAt = p.ip.ttl
  src : s.buf.u32 ipSrcAt = p.ip.src
  dst : s.buf.u32 ipDstAt = p.ip.dst
  behind : ∀ i, s.buf (20 + i) = (p.opts ++ p.data).getD i 0

theorem send_sentAs (host : OutHost) (p : OutPkt) (hlen : Int) : SentAs (host.send p hlen) p := by
  generalize hs : host.send p hlen = s
  obtain ⟨x, y, hsum⟩ : ∃ x y, host.cksum (p.ip.octets (put16 p.ip.len) (put16 p.ip.off) [0, 0] ++
      p.opts ++ p.data) hlen = [x, y] := List.length_eq_two.mp (length_cksum ..)
  have hhdr : s.hdr = p.ip.octets (put16 p.ip.len) (put16 p.ip.off) [x, y] ++ p.opts := by
    rw [← hs, ← hsum]
    rfl
  have hdata : s.data = p.data := by
    rw [← hs]
    rfl
  have hbuf : s.buf = Buf.of (p.ip.octets (put16 p.ip.len) (put16 p.ip.off) [x, y] ++
      (p.opts ++ p.data)) := by
    rw [Sent.buf, Sent.octets, hhdr, hdata, List.append_assoc]
  have hlong : (p.ip.octets (put16 p.ip.len) (put16 p.ip.off) [x, y]).length = 20 := by simp
  have hholds := Buf.holds_of [] (p.ip.octets (put16 p.ip.len) (put16 p.ip.off) [x, y])
    (p.opts ++ p.data)
  rw [List.nil_append, ← hbuf] at hholds
  refine ⟨?_, ?_, ?_, ?_, ?_⟩
  · rw [hbuf]
    rfl
  · rw [hbuf]
    rfl
  · rw [hbuf]
    exact get32_put32 p.ip.src
  · rw [hbuf]
    exact get32_put32 p.ip.dst
  · intro i
    rw [hbuf, Buf.of, List.getD_append_right _ _ _ _ (by omega), hlong, Nat.add_sub_cancel_left]

/-- A call of `ip_output` with these options, for a packet from `src` that is sent whole, with `ttl`,
and of up to `n` octets. -/
structure SendsBy (route : OutHdr → Option OutRoute) (c : OutCall) (m : OptMbuf) (src : UInt32)
    (ttl n : Nat) : Prop where
  opt : c.opt = some m
  raw : c.raw = false
  mbuf : c.mbuf = true
  bare : c.pkt.opts = []
  len : c.pkt.ip.len.toNat = 20 + c.pkt.data.length
  fits : c.pkt.ip.len.toNat + 40 ≤ ipMaxpacket
  most : c.pkt.ip.len.toNat + 40 ≤ n
  route : ∀ ip : OutHdr, ip.dst = m.data.u32 0 → ∃ found, route ip = some found ∧ found.src = src ∧
    found.ttl.toNat = ttl ∧ found.looped = false ∧ found.sent = true ∧ found.Unscathed ∧
    c.pkt.ip.len.toNat + 40 ≤ found.net.mtu

/-- What `ip_output` makes of such a call, down to `sendit`. -/
structure Completed (c : OutCall) (m : OptMbuf) (src : UInt32) (ttl : Nat) (q : OutPkt) :
    Prop where
  whole : q.Whole (20 + ((m.len - 4 : Nat) : Int))
  v : q.ip.v = 4
  dst : q.ip.dst = m.data.u32 0
  src : q.ip.src = src
  ttl : q.ip.ttl.toNat = ttl
  opts : q.opts = m.data.slice 4 (m.len - 4)
  data : q.data = c.pkt.data

theorem ipOutput_completed {route : OutHdr → Option OutRoute} {c : OutCall} {m : OptMbuf}
    (h : SendsBy route c m src ttl n) (hm : RouteBlock m k opt first rest) (hfirst : first ≠ 0)
    (host : OutHost) (id : UInt16) :
    ∃ q, host.ipOutput id route c = [host.send q (20 + ((m.len - 4 : Nat) : Int))] ∧
      Completed c m src ttl q := by
  have hfits := hm.fits
  have hmost := hm.most
  have hfour := hm.four
  have hroom := h.fits
  have hlen := h.len
  rw [ipMaxpacket] at hroom
  have hoptlen : (m.len + 0x100000000 - 4) % 0x100000000 = m.len - 4 := by omega
  obtain ⟨ip, hins, hdst, hiplen⟩ : ∃ ip, ipInsertoptions c.mbuf m c.pkt =
      (⟨ip, m.data.slice 4 (m.len - 4), c.pkt.data⟩, some (20 + ((m.len - 4 : Nat) : Int))) ∧
      ip.dst = first ∧ ip.len.toNat = c.pkt.ip.len.toNat + (m.len - 4) := by
    refine ⟨{ c.pkt.ip with dst := first, len := c.pkt.ip.len + UInt16.ofNat (m.len - 4) }, ?_, rfl,
      ?_⟩
    · rw [ipInsertoptions]
      dsimp only
      rw [hoptlen, if_neg (by rw [ipMaxpacket]; omega), h.mbuf, h.bare, hm.first]
      simp [hfirst]
    · show (c.pkt.ip.len + UInt16.ofNat (m.len - 4)).toNat = _
      rw [UInt16.toNat_add, UInt16.toNat_ofNat']
      omega
  -- `ip_output` completes the header, and the routing adds `ip_ttl` and `ip_src`
  obtain ⟨p, hp, hpdst, hpopts, hpdata, hpv, hplen, hphl⟩ : ∃ p,
      ipOutputHead id c = (p, 20 + ((m.len - 4 : Nat) : Int)) ∧ p.ip.dst = first ∧
      p.opts = m.data.slice 4 (m.len - 4) ∧ p.data = c.pkt.data ∧ p.ip.v = 4 ∧
      p.ip.len = ip.len ∧ p.ip.hl.val = (16 + m.len) / 4 := by
    have hinserted : c.inserted = (⟨ip, m.data.slice 4 (m.len - 4), c.pkt.data⟩,
        some (20 + ((m.len - 4 : Nat) : Int))) := by
      rw [OutCall.inserted, h.opt]
      exact hins
    rw [ipOutputHead, hinserted, h.raw]
    refine ⟨_, rfl, hdst, rfl, rfl, rfl, rfl, ?_⟩
    show ((20 + ((m.len - 4 : Nat) : Int)) / 4 % 16).toNat % 16 = _
    omega
  obtain ⟨found, hfound, hsrc, httl, hlooped, hgoes, hsame, hmtu⟩ :=
    h.route p.ip (hpdst.trans hm.first.symm)
  have hdone : Completed c m src ttl
      { p with ip := { p.ip with ttl := found.ttl, src := found.src } } := by
    refine ⟨⟨?_, ?_, ?_⟩, hpv, hpdst.trans hm.first.symm, hsrc, httl, hpopts, hpdata⟩
    · show _ = 20 + (p.opts.length : Int)
      rw [hpopts, Buf.length_slice]
    · show 4 * p.ip.hl.val = 20 + p.opts.length
      rw [hphl, hpopts, Buf.length_slice]
      omega
    · show p.ip.len.toNat = 20 + p.opts.length + p.data.length
      rw [hplen, hiplen, hpopts, hpdata, Buf.length_slice]
      omega
  have hsmall : p.ip.len.toNat ≤ found.net.mtu := by
    rw [hplen, hiplen]
    omega
  refine ⟨_, ?_, hdone⟩
  rw [OutHost.ipOutput, hp]
  dsimp only
  rw [hfound]
  dsimp only
  rw [hlooped, hgoes, hsame, if_neg Bool.false_ne_true, if_neg Bool.false_ne_true, if_pos rfl,
    OutHost.sendit]
  dsimp only
  rw [if_pos hsmall]
  rfl

theorem SentAs.hlen {s : Sent} {q : OutPkt} {hlen : Int} (hs : SentAs s q) (h : q.Whole hlen) :
    ipHlen s.buf = 20 + q.opts.length := by
  have hv := q.ip.v.isLt
  have hhl := q.ip.hl.isLt
  rw [ipHlen, hs.hl, UInt8.toNat_ofNat', ← h.hl]
  omega

/-- Whatever `ip_output` sends whole is a datagram. -/
theorem send_datagram {q : OutPkt} {hlen : Int} (h : q.Whole hlen) (hv : q.ip.v = 4)
    {host : OutHost} (hck : ck = true → host.cksumSnd = true) :
    Datagram ck (host.send q hlen).octets := by
  have hconsistent := send_consistent h host
  have hsent := send_sentAs host q hlen
  have hlong : (host.send q hlen).hdr.length = 20 + q.opts.length := by simp [OutHost.send]
  have hhlen : ipHlen (Buf.of (host.send q hlen).octets) = (host.send q hlen).hdr.length :=
    (hsent.hlen h).trans hlong.symm
  have hdata : ∀ i, i < 20 →
      Buf.of (host.send q hlen).octets i = (host.send q hlen).hdr.getD i 0 :=
    fun i hi => List.getD_append _ _ _ _ (by omega)
  refine ⟨?_, ?_, ?_, ?_, ?_⟩
  · have hhl := q.ip.hl.isLt
    rw [show Buf.of (host.send q hlen).octets 0 = _ from hsent.hl, hv, UInt8.toNat_ofNat']
    show (4 * 16 + q.ip.hl.val) % 256 / 16 = 4
    omega
  · rw [hhlen, hlong]
    omega
  · rw [hhlen, Sent.octets, List.length_append]
    omega
  · rw [Sent.octets, List.length_append, ← hconsistent.len, Sent.len, Buf.u16, ← Sent.octets,
      hdata ipLenAt (by decide), hdata (ipLenAt + 1) (by decide)]
    rfl
  · intro hcksum
    rw [hhlen, Sent.octets, List.take_left]
    exact hconsistent.sum (hck hcksum)

/-- The route in what is sent. -/
theorem Completed.onRoute {c : OutCall} {m : OptMbuf} {q : OutPkt} {s : Sent}
    (hq : Completed c m src ttl q) (hs : SentAs s q) (hm : RouteBlock m k opt first rest) :
    OnRoute s.buf (20 + k) opt [] rest := by
  have hfits := hm.fits
  have hmost := hm.most
  have hfour := hm.four
  have hhlen : ipHlen s.buf = 16 + m.len := by
    rw [hs.hlen hq.whole, hq.opts, Buf.length_slice]
    omega
  have hopts : ∀ i, 4 ≤ i → i < m.len → s.buf (16 + i) = m.data i := by
    intro i hi hlt
    obtain ⟨j, rfl⟩ : ∃ j, i = 4 + j := ⟨i - 4, by omega⟩
    have hj : j < m.len - 4 := by omega
    have hat : 16 + (4 + j) = 20 + j := by omega
    rw [hat, hs.behind, hq.opts, List.getD_append _ _ _ _ (by simpa using hj)]
    simp [Buf.slice, hj]
  have hroute : hops s.buf (20 + k) rest.length = rest := by
    refine (addrs_congr fun i hi => ?_).trans hm.route
    rw [← hopts _ (by omega) (by omega)]
    exact congrArg s.buf (by omega)
  have hat : ∀ i, s.buf (20 + k + i) = s.buf (16 + (4 + k + i)) := by
    intro i
    exact congrArg s.buf (by omega)
  have holen : (s.buf (20 + k + 1)).toNat = 3 + 4 * rest.length := by
    rw [hat, hopts _ (by omega) (by omega), hm.olen]
  exact
    { start := by omega
      nops := by
        intro i hi hlt
        obtain ⟨j, rfl⟩ : ∃ j, i = 16 + j := ⟨i - 16, by omega⟩
        rw [hopts j (by omega) (by omega), hm.nops j (by omega) (by omega)]
      kind := by
        rw [← Nat.add_zero (20 + k), hat, hopts _ (by omega) (by omega)]
        exact hm.kind
      olen := by rw [holen, List.length_nil, Nat.zero_add]
      ptr := by
        rw [hat, hopts _ (by omega) (by omega), hm.ptr]
        rfl
      route := by rw [List.length_nil, Nat.zero_add, hroute, List.nil_append]
      fits := by
        rw [holen, hhlen]
        omega
      last := by
        rw [holen, hhlen]
        rcases hm.last with hend | heol
        · exact .inl (by omega)
        · rcases Nat.eq_or_lt_of_le hfits with hend | hlt
          · exact .inl (by omega)
          · right
            rw [hat, hopts _ (by omega) hlt]
            exact heol }

/-- A packet with a source route is sent, and is at the beginning of its route. -/
theorem ipOutput_onWire {route : OutHdr → Option OutRoute} {c : OutCall} {m : OptMbuf}
    (h : SendsBy route c m src ttl n) (hm : RouteBlock m k opt first rest) (hfirst : first ≠ 0)
    {host : OutHost} (hck : ck = true → host.cksumSnd = true) (id : UInt16) :
    ∃ sent, host.ipOutput id route c = [sent] ∧
      OnWire ck sent.octets (20 + k) opt first ttl [] rest sent.octets ∧
      sent.octets.length ≤ n ∧ sent.buf.u32 ipSrcAt = src ∧
      sent.octets.drop (ipHlen sent.buf) = c.pkt.data := by
  obtain ⟨q, hsend, hq⟩ := ipOutput_completed h hm hfirst host id
  have hdatagram : Datagram ck (host.send q (20 + ((m.len - 4 : Nat) : Int))).octets :=
    send_datagram hq.whole hq.v hck
  have hsent := send_sentAs host q (20 + ((m.len - 4 : Nat) : Int))
  have hlong : (host.send q (20 + ((m.len - 4 : Nat) : Int))).hdr.length =
      20 + q.opts.length := by simp [OutHost.send]
  have hdata : (host.send q (20 + ((m.len - 4 : Nat) : Int))).data = c.pkt.data := hq.data
  generalize host.send q (20 + ((m.len - 4 : Nat) : Int)) = sent
    at hsend hdatagram hsent hlong hdata
  have hroute := hq.onRoute hsent hm
  have hhlen : ipHlen sent.buf = sent.hdr.length := (hsent.hlen hq.whole).trans hlong.symm
  refine ⟨sent, hsend, ⟨hdatagram, rfl, hroute, ?_, ?_, fun _ _ => rfl⟩, ?_, ?_, ?_⟩
  · show sent.buf.u32 ipDstAt = first
    rw [hsent.dst, hq.dst, hm.first]
  · show (sent.buf ipTtlAt).toNat = ttl
    rw [hsent.ttl]
    exact hq.ttl
  · have hmost := h.most
    have hlen := h.len
    have hmost' := hm.most
    rw [Sent.octets, List.length_append, hlong, hdata, hq.opts, Buf.length_slice]
    omega
  · rw [hsent.src]
    exact hq.src
  · rw [hhlen, Sent.octets, List.drop_left]
    exact hdata

/-! ## There and back -/

/-- An address of the host's. -/
structure Gateway.Has (g : Gateway) (dst : UInt32) : Prop where
  here : (g.router.ifaIfwithaddr dst).isSome
  ours : g.ours dst = true

/-- What was sent is kept by the host at the end of the way, with its source and its data, and the
route that is saved there is `s`. -/
def Reaches (gs : List Gateway) (host : Gateway) (sent : Sent) (src dst : UInt32)
    (data : List UInt8) (s : SrcRoute) : Prop :=
  ∃ l m, travel gs sent.octets = some l ∧ host.ipintr l = .ours s m ∧ m.data.u32 ipSrcAt = src ∧
    m.data.u32 ipDstAt = dst ∧ m.octets.drop (ipHlen m.data) = data

theorem drop_congr {l' : List UInt8} (hlen : l.length = l'.length)
    (h : ∀ i, k ≤ i → Buf.of l i = Buf.of l' i) : l.drop k = l'.drop k := by
  refine List.ext_getElem (by rw [List.length_drop, List.length_drop, hlen]) ?_
  intro i hi hi'
  rw [List.length_drop] at hi hi'
  have hsame := h (k + i) (Nat.le_add_right k i)
  rwa [Buf.of_lt (by omega), Buf.of_lt (by omega), ← List.getElem_drop,
    ← List.getElem_drop] at hsame

/-- A packet that is sent with a source route gets to the end of it, and the route that was
entered is saved. -/
theorem Way.reaches (h : Way opt n first rest gs out fin) (hopt : SourceRouteOpt opt)
    {route : OutHdr → Option OutRoute} {c : OutCall} {m : OptMbuf}
    (hsends : SendsBy route c m src ttl n) (hm : RouteBlock m k opt first rest) (hfirst : first ≠ 0)
    (hsrc : src ≠ 0) (httl : gs.length < ttl) (hrest : rest ≠ []) {host : Gateway}
    (hhost : host.Has fin) (hready : ∀ g ∈ host :: gs, g.Ready ck) {from' : OutHost}
    (hck : ck = true → from'.cksumSnd = true) (id : UInt16) :
    ∃ sent s, from'.ipOutput id route c = [sent] ∧ Reaches gs host sent src fin c.pkt.data s ∧
      ∃ b, RouteSaved s b (20 + k) rest.length src ∧ OnRoute b (20 + k) opt out [] := by
  have hlen := h.length
  have hout : out ≠ [] := by
    intro hnil
    rw [hnil, List.length_nil] at hlen
    exact hrest (List.length_eq_zero_iff.mp hlen.symm)
  obtain ⟨hhere, hgs⟩ := List.forall_mem_cons.mp hready
  obtain ⟨sent, hsent, hstart, hlong, hsent_src, hdata⟩ := ipOutput_onWire hsends hm hfirst hck id
  obtain ⟨left, rfl⟩ : ∃ left, ttl = left + gs.length := ⟨ttl - gs.length, by omega⟩
  have hsrc' : (Buf.of sent.octets).u32 ipSrcAt ≠ 0 :=
    fun hzero => hsrc (hsent_src.symm.trans hzero)
  obtain ⟨l, htravel, hl⟩ := h.travel hstart hopt (by omega) hsrc' hlong hgs
  rw [List.nil_append] at hl
  obtain ⟨m', hours, hheld⟩ := ipintr_end hl hopt hout hhere hhost.here hhost.ours
  have hsrceq : (Buf.of sent.octets).u32 ipSrcAt = src := hsent_src
  rw [hsrceq] at hours
  have hroute := hheld.route
  have holen := hroute.olen
  have hsmall := hroute.small
  have hcp := hroute.start
  have hfits := hroute.fits
  rw [List.length_nil, Nat.add_zero, hlen] at holen hsmall
  have hmin := hheld.min
  have hhlen : ipHlen m'.data = ipHlen sent.buf := by
    rw [ipHlen, hheld.data (by omega), hheld.underway.intact 0 (by omega), ← Sent.buf, ipHlen]
  refine ⟨sent, _, hsent, ⟨l, m', htravel, hours, ?_, hheld.dst_eq, ?_⟩, m'.data, ?_, hroute⟩
  · rw [hheld.src_eq, hsrceq]
  · rw [hhlen, ← hdata]
    refine drop_congr hheld.length fun i hi => ?_
    rw [Chain.of_octets]
    have hstop : 20 + k + (Buf.of sent.octets (20 + k + 1)).toNat ≤ ipHlen sent.buf :=
      hstart.underway.route.fits
    exact hheld.underway.intact i (by omega)
  · exact saveRte_saves ⟨by omega, by omega⟩ (by omega) src _

/-- A user's source route leads to the last of its hosts, and the hosts of the route are saved
there. What is answered by the route that `ip_srcroute` makes of them gets back to `src`. -/
theorem source_route_round_trip (hopt : SourceRouteOpt opt) {k e : Nat} {a : UInt32}
    {as : List UInt32} (hfour : (routeOptions opt k e (a :: as)).length % 4 = 0)
    (hmost : (routeOptions opt k e (a :: as)).length ≤ 44) (has : as ≠ [])
    (hway : TwoWay opt n src a as gs out fin) (hzero : 0 ∉ src :: a :: out) {dest source : Gateway}
    (hdest : dest.Has fin) (hsource : source.Has src)
    (hready : ∀ g ∈ dest :: source :: gs, g.Ready ck) :
    ∃ p, ipPcbopts true (routeOptions opt k e (a :: as)) = some (some p) ∧
      ∀ (host : OutHost) id route c ttl, (ck = true → host.cksumSnd = true) →
        SendsBy route c p.mbuf src ttl n → gs.length < ttl →
        ∃ sent s, host.ipOutput id route c = [sent] ∧
          Reaches gs dest sent src fin c.pkt.data s ∧
          s.nhops = as.length ∧ addrs s.srcrt srcrtRoute s.nhops = out ∧
          ∀ m, ∃ q, (ipSrcroute (some m) s).1 = some q ∧
            ∀ (host' : OutHost) id' route' c' src' ttl', (ck = true → host'.cksumSnd = true) →
              SendsBy route' c' q src' ttl' n → src' ≠ 0 → gs.length < ttl' →
              ∃ sent' s', host'.ipOutput id' route' c' = [sent'] ∧
                Reaches gs.reverse source sent' src' src c'.pkt.data s' := by
  have hlist := length_routeOptions opt k e (a :: as)
  have hlist' := length_routeOptions opt k e as
  rw [List.length_cons] at hlist
  simp only [List.mem_cons, not_or] at hzero
  obtain ⟨hsrc, ha, hout⟩ := hzero
  have hlen := hway.there.length
  have hpos : 0 < as.length := List.length_pos_iff.mpr has
  refine ⟨_, ipPcbopts_route hopt hfour hmost, ?_⟩
  obtain ⟨hdest', hrest⟩ := List.forall_mem_cons.mp hready
  obtain ⟨hsource', hgs⟩ := List.forall_mem_cons.mp hrest
  intro host id route c ttl hck hsends httl
  have hblock : RouteBlock (PcbOpts.mbuf ⟨put32 a, routeOptions opt k e as⟩) k opt a as :=
    routeBlock_pcbopts (by omega) (by omega)
  obtain ⟨sent, s, hsent, hreaches, b, hsaved, hb⟩ := hway.there.reaches hopt hsends hblock
    (Ne.symm ha) (Ne.symm hsrc) httl has hdest (List.forall_mem_cons.mpr ⟨hdest', hgs⟩) hck id
  have holen := hb.olen
  have hhops := hb.route
  rw [List.length_nil, Nat.add_zero, hlen] at holen hhops
  rw [List.append_nil] at hhops
  refine ⟨sent, s, hsent, hreaches, hsaved.nhops, ?_, ?_⟩
  · rw [hsaved.nhops, hsaved.route, hhops]
  intro m
  obtain ⟨q, hq, hrev⟩ := ipSrcroute_reverses hsaved hpos m
  refine ⟨q, hq, ?_⟩
  intro host' id' route' c' src' ttl' hck' hsends' hsrc' httl'
  -- the way back begins with the last host that is in the option
  obtain ⟨d, ds, hback⟩ : ∃ d ds, (src :: out).reverse = d :: ds :=
    List.exists_cons_of_ne_nil (by simp)
  obtain ⟨out', hway'⟩ := hway.back hback
  have hcount : ds.length = as.length := by
    have hcount := congrArg List.length hback
    rw [List.length_reverse, List.length_cons, List.length_cons, hlen] at hcount
    omega
  have hd : d ≠ 0 := by
    intro hzero
    have hmem : d ∈ src :: out := List.mem_reverse.mp (hback ▸ List.mem_cons_self)
    rw [hzero] at hmem
    rcases List.mem_cons.mp hmem with heq | hmem
    · exact hsrc heq
    · exact hout hmem
  rw [← hcount] at hrev holen hhops
  have hblock' : RouteBlock q 1 opt d ds :=
    hrev.block hb.kind holen (by omega) (by rw [hhops, ← List.reverse_cons, hback])
  obtain ⟨sent', s', hsent', hreaches', -⟩ := hway'.reaches hopt hsends' hblock' hd hsrc'
    (by rwa [List.length_reverse]) (List.length_pos_iff.mp (by omega)) hsource
    (List.forall_mem_cons.mpr ⟨hsource', fun g hg => hgs g (List.mem_reverse.mp hg)⟩) hck' id'
  exact ⟨sent', s', hsent', hreaches'⟩

/-- Octets in one mbuf, filled up to what an Ethernet frame has. -/
def Driver.ethernet : Driver where
  chain l := oneMbuf ⟨Buf.of [], 0, l ++ List.replicate (46 - l.length) 0⟩
  all l := by
    rw [octets_oneMbuf]
    exact List.prefix_append l _

/-- A host with these addresses, and a route to what is on their networks. -/
def gatewayAt (own : List UInt32) : Gateway where
  bo := .big
  cksumSnd := true
  layout := .single
  ifaddr := true
  cksumRcv := true
  mPullup _ m := some (oneMbuf m)
  driver := .ethernet
  router :=
    { ifaIfwithaddr := fun d => own.find? (· = d)
      ifaIfwithdstaddr := fun _ => none
      ifaIfwithnet := fun d => own.find? fun i => i >>> 8 = d >>> 8
      ifaofIfpforaddr := fun _ => none
      ipRtaddr := fun d => own.find? fun i => i >>> 8 = d >>> 8
      iptime := 0 }
  ours d := d ∈ own
  forwarding := true
  canforward _ := true
  sends _ := true
  mtu _ := 1500
  srcrt _ := 0

theorem gatewayAt_ready (own : List UInt32) : (gatewayAt own).Ready true where
  ifaddr := rfl
  verifies _ := rfl
  computes _ := rfl
  mPullup _ m _ hlong := ⟨oneMbuf m, rfl, octets_oneMbuf m, hlong⟩

/-- A way out for what is from `src`. -/
def onward (src : UInt32) (_ : OutHdr) : Option OutRoute :=
  some ⟨⟨1500, fun _ => true, fun _ => true, 0⟩, 64, src, false, id, true⟩

theorem skeletal_len : skeletal.ip.len.toNat = 24 := rfl

theorem sendsBy_onward (m : OptMbuf) (src : UInt32) :
    SendsBy (onward src) ⟨skeletal, some m, false, true, 0⟩ m src 64 1500 where
  opt := rfl
  raw := rfl
  mbuf := rfl
  bare := rfl
  len := rfl
  fits := by
    rw [skeletal_len]
    decide
  most := by
    rw [skeletal_len]
    exact Nat.le_of_ble_eq_true rfl
  route := fun _ _ => ⟨_, rfl, rfl, rfl, rfl, rfl, fun _ => rfl, by
    rw [skeletal_len]
    exact Nat.le_of_ble_eq_true rfl⟩

/-- By a host that is passed and one of the route, to another network and back. -/
theorem source_route_round_trip_one :
    ∃ p, ipPcbopts true (routeOptions ipoptLsrr 1 0 [0x0a000002, 0x0a000101]) = some (some p) ∧
      ∃ sent s, OutHost.ipOutput ⟨.big, true, .single⟩ 7 (onward 0x0a000001)
          ⟨skeletal, some p.mbuf, false, true, 0⟩ = [sent] ∧
        Reaches [gatewayAt [0x0a000005], gatewayAt [0x0a000002, 0x0a000102]]
          (gatewayAt [0x0a000101]) sent 0x0a000001 0x0a000101 [1, 2, 3, 4] s ∧
        addrs s.srcrt srcrtRoute s.nhops = [0x0a000102] ∧
        ∃ q, (ipSrcroute (some fun _ => 0) s).1 = some q ∧
          ∃ sent' s', OutHost.ipOutput ⟨.big, true, .single⟩ 8 (onward 0x0a000101)
              ⟨skeletal, some q, false, true, 0⟩ = [sent'] ∧
            Reaches [gatewayAt [0x0a000002, 0x0a000102], gatewayAt [0x0a000005]]
              (gatewayAt [0x0a000001]) sent' 0x0a000101 0x0a000001 [1, 2, 3, 4] s' := by
  have hfour : (routeOptions ipoptLsrr 1 0 [0x0a000002, 0x0a000101]).length % 4 = 0 := by decide
  have hsmall : 1500 ≤ 1500 := Nat.le_refl _
  have hway : TwoWay ipoptLsrr 1500 0x0a000001 0x0a000002 [0x0a000101]
      [gatewayAt [0x0a000005], gatewayAt [0x0a000002, 0x0a000102]] [0x0a000102] 0x0a000101 := by
    refine .pass rfl rfl ?_ (.hop rfl rfl rfl rfl ?_ (.nil _ _))
    · intro d hd
      simp only [List.mem_cons, List.not_mem_nil, or_false] at hd
      rcases hd with rfl | rfl
      · exact ⟨by decide, by decide, by decide, by decide, rfl, by decide, rfl, hsmall⟩
      · exact ⟨by decide, by decide, by decide, by decide, rfl, by decide, rfl, hsmall⟩
    · intro d hd
      simp only [List.mem_cons, List.not_mem_nil, or_false] at hd
      rcases hd with rfl | rfl
      · exact ⟨by decide, rfl, by decide, rfl, hsmall⟩
      · exact ⟨by decide, rfl, by decide, rfl, hsmall⟩
  have hready : ∀ g ∈ [gatewayAt [0x0a000101], gatewayAt [0x0a000001], gatewayAt [0x0a000005],
      gatewayAt [0x0a000002, 0x0a000102]], g.Ready true := by
    simp only [List.forall_mem_cons]
    exact ⟨gatewayAt_ready _, gatewayAt_ready _, gatewayAt_ready _, gatewayAt_ready _, by simp⟩
  have hdest : (gatewayAt [0x0a000101]).Has 0x0a000101 := ⟨by decide, by decide⟩
  have hsource : (gatewayAt [0x0a000001]).Has 0x0a000001 := ⟨by decide, by decide⟩
  obtain ⟨p, hp, hsends⟩ := source_route_round_trip (.inl rfl) hfour (by decide) (by decide) hway
    (by decide) hdest hsource hready
  obtain ⟨sent, s, hsent, hreaches, -, hout, hreply⟩ := hsends ⟨.big, true, .single⟩ 7 _ _ 64
    (fun _ => rfl) (sendsBy_onward p.mbuf 0x0a000001) (by decide)
  obtain ⟨q, hq, hback⟩ := hreply fun _ => 0
  obtain ⟨sent', s', hsent', hreaches'⟩ := hback ⟨.big, true, .single⟩ 8 _ _ 0x0a000101 64
    (fun _ => rfl) (sendsBy_onward q 0x0a000101) (by decide) (by decide)
  exact ⟨p, hp, sent, s, hsent, hreaches, hout, q, hq, sent', s', hsent', hreaches'⟩

end VxWorks.Netinet
