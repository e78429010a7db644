import VxWorks.Netinet.IpIntr
import VxWorks.Netinet.OptionBounds

/-!
# A host on a source route (ip_input.c)

A datagram under way with a source route, at one host: `ipintr` checks its header, has the options
done, and then keeps the datagram or gives it to `ip_forward`. The route is the
only option, behind NOPs and in front of the end of the list. Where the host is
the next one of the route, the next address becomes the destination and the
host's own address stands in its place; where it is not, and the route is loose,
the datagram goes on as it is; and at the end of the route the route is saved.

The multicasts are left out. The routing is a parameter, as are the sizes of the
networks and what the drivers make of the octets that come to them.
-/

namespace VxWorks.Netinet

open VxWorks.Lib VxWorks.Lib.Traced

/-! ## ipintr and ip_forward -/

/-- A driver puts what comes to it into mbufs. There may be octets behind it. -/
structure Driver where
  chain : List UInt8 → Chain
  all : ∀ l, l <+: (chain l).octets

/-- A host: its driver, its interfaces and routes, the addresses that `ipintr` takes for its own,
whether it forwards, `in_canforward` and the hook, whether `ip_output` sends what is for an address
and how much at once, and what `ip_srcrt` holds. -/
structure Gateway extends InHost where
  driver : Driver
  router : Router
  ours : UInt32 → Bool
  forwarding : Bool
  canforward : UInt32 → Bool
  sends : UInt32 → Bool
  mtu : UInt32 → Nat
  srcrt : Buf

/-- What becomes of a datagram: `forwarded` has the octets that an interface is handed, where they
are not too many for it. -/
inductive Arrived where
  | gone
  | multicast
  | pieces
  | forwarded (l : List UInt8)
  | ours (s : SrcRoute) (m : Chain)

/-- `ip_forward`, and what of `ip_output` writes to the header. -/
def Gateway.ipForward (g : Gateway) (m : Chain) : Arrived :=
  let dst := m.data.u32 ipDstAt
  if g.canforward dst = false then .gone
  else if (m.data ipTtlAt).toNat ≤ 1 then .gone
  else
    match g.router.ipRtaddr dst with
    | none => .gone
    | some ia =>
        if g.sends dst = false then .gone
        else
          let b := m.data.set8 ipTtlAt (m.data ipTtlAt - 1)
          let b := if b.u32 ipSrcAt = 0 then b.set32 ipSrcAt ia else b
          if g.mtu dst < (b.u16 ipLenAt).toNat then .pieces
          else .forwarded (g.seal (m.withData b)).octets

/-- The end of the options, and the datagram behind it. -/
def Gateway.options (g : Gateway) (b : Buf) : OptExit × Buf :=
  if 20 < ipHlen b then
    let run := ipDooptionsT g.router ⟨0, g.srcrt⟩ b
    (run.exit, run.buf)
  else (.next false ⟨0, g.srcrt⟩, b)

/-- `ipintr` from `ip_nhops = 0` on. -/
def Gateway.ipintrRest (g : Gateway) (m : Chain) : Arrived :=
  match g.options m.data with
  | (.bad _ _, _) => .gone
  | (.next true _, b) => g.ipForward (m.withData b)
  | (.next false s, b) =>
      let m := m.withData b
      let dst := m.data.u32 ipDstAt
      if g.ours dst then .ours s m
      else if inMulticast dst then .multicast
      else if dst = 0xffffffff ∨ dst = 0 then .ours s m
      else if g.forwarding then g.ipForward m
      else .gone

/-- `ipintr`, for octets that come by the link. -/
def Gateway.ipintr (g : Gateway) (l : List UInt8) : Arrived :=
  match g.ipintrHead (g.driver.chain l) with
  | none => .gone
  | some m => g.ipintrRest m

/-! ## Where a datagram is on its route -/

/-- The datagram has a source route at `cp`, and has been to the hosts that have entered `out`;
`rest` are still before it. -/
structure OnRoute (b : Buf) (cp : Nat) (opt : UInt8) (out rest : List UInt32) : Prop where
  start : 20 ≤ cp
  nops : ∀ i, 20 ≤ i → i < cp → b i = ipoptNop
  kind : b cp = opt
  olen : (b (cp + 1)).toNat = 3 + 4 * (out.length + rest.length)
  ptr : (b (cp + 2)).toNat = 4 + 4 * out.length
  route : hops b cp (out.length + rest.length) = out ++ rest
  fits : cp + (b (cp + 1)).toNat ≤ ipHlen b
  last : cp + (b (cp + 1)).toNat = ipHlen b ∨ b (cp + (b (cp + 1)).toNat) = ipoptEol

/-- `IPOPT_LSRR` or `IPOPT_SSRR` -/
def SourceRouteOpt (opt : UInt8) : Prop := opt = ipoptLsrr ∨ opt = ipoptSsrr

variable {g : Gateway} {r : Router} {opt : UInt8} {dst a ia : UInt32} {cp cnt k : Nat}
  {forward : Bool} {s : SrcRoute} {b b' : Buf} {out rest : List UInt32}

theorem SourceRouteOpt.ne (h : SourceRouteOpt opt) : opt ≠ ipoptEol ∧ opt ≠ ipoptNop := by
  rcases h with rfl | rfl <;> decide

theorem OnRoute.congr (h : OnRoute b cp opt out rest) (h0 : b' 0 = b 0)
    (hsame : ∀ i, 20 ≤ i → i < ipHlen b → b' i = b i) : OnRoute b' cp opt out rest := by
  have hcp := h.start
  have hfits := h.fits
  have holen := h.olen
  have hhlen : ipHlen b' = ipHlen b := by rw [ipHlen, h0, ipHlen]
  have hlen : b' (cp + 1) = b (cp + 1) := hsame _ (by omega) (by omega)
  have hhops : hops b' cp (out.length + rest.length) =
      hops b cp (out.length + rest.length) :=
    addrs_congr fun i _ => hsame _ (by omega) (by omega)
  exact
    { start := hcp
      nops := fun i hi hlt => (hsame i hi (by omega)).trans (h.nops i hi hlt)
      kind := (hsame cp hcp (by omega)).trans h.kind
      olen := hlen ▸ h.olen
      ptr := (hsame (cp + 2) (by omega) (by omega)).symm ▸ h.ptr
      route := hhops.trans h.route
      fits := by
        rw [hlen, hhlen]
        exact h.fits
      last := by
        rw [hlen, hhlen]
        rcases Nat.eq_or_lt_of_le hfits with hend | hlt
        · exact .inl hend
        · rw [hsame _ (by omega) hlt]
          exact h.last }

/-! ## The loop -/

/-- The end of the loop without its account. -/
def LoopRun.ends (run : LoopRun) : OptExit × Buf := (run.exit, run.buf)

theorem ends_stop {fuel : Nat} (h : cnt = 0 ∨ b cp = ipoptEol) :
    (dooptionsLoopT r dst fuel cp cnt forward s b).ends = (.next forward s, b) := by
  cases fuel with
  | zero => rfl
  | succ fuel =>
      rw [dooptionsLoopT]
      by_cases hzero : cnt = 0
      · rw [if_pos hzero]
        rfl
      · rw [if_neg hzero, optRoundT_eol (h.resolve_left hzero)]
        rfl

theorem ends_nops (h : ∀ i, cp ≤ i → i < cp + k → b i = ipoptNop) :
    (dooptionsLoopT r dst (k + cnt) cp (k + cnt) forward s b).ends =
      (dooptionsLoopT r dst cnt (cp + k) cnt forward s b).ends := by
  induction k generalizing cp with
  | zero => simp
  | succ k ih =>
      have hrest := @ih (cp + 1) fun i hi hlt => h i (by omega) (by omega)
      rw [Nat.add_assoc, Nat.add_comm 1 k] at hrest
      rw [← hrest, Nat.add_right_comm k 1 cnt, dooptionsLoopT, if_neg (Nat.succ_ne_zero _),
        optRoundT_nop (h cp (Nat.le_refl _) (by omega))]
      rfl

theorem ends_opt {len : Nat} (heol : b cp ≠ ipoptEol) (hnop : b cp ≠ ipoptNop)
    (hlen : (b (cp + 1)).toNat = len) (hpos : 0 < len) {forward' : Bool} {s' : SrcRoute}
    (hval : ((optSwitchT r dst (b cp) cp len forward s).run b).val = .next forward' s')
    (hbuf : ((optSwitchT r dst (b cp) cp len forward s).run b).buf = b') :
    (dooptionsLoopT r dst (len + cnt) cp (len + cnt) forward s b).ends =
      (dooptionsLoopT r dst cnt (cp + len) cnt forward' s' b').ends := by
  obtain ⟨fuel, hfuel⟩ : ∃ fuel, len + cnt = fuel + 1 := ⟨len + cnt - 1, by omega⟩
  have hrest : dooptionsLoopT r dst fuel (cp + len) cnt forward' s' b' =
      dooptionsLoopT r dst cnt (cp + len) cnt forward' s' b' :=
    dooptionsLoopT_fuel r dst (by omega) (Nat.le_refl _) _ _ _ _
  have hcnt : fuel + 1 - len = cnt := by omega
  have hgood : ¬ ((b (cp + 1)).toNat = 0 ∨ fuel + 1 < (b (cp + 1)).toNat) := by omega
  rw [← hrest, hfuel, dooptionsLoopT, if_neg (Nat.succ_ne_zero _), optRoundT_opt heol hnop hgood]
  dsimp only
  rw [hlen, hval, hbuf]
  simp only [OptExit.round, hcnt]
  rfl

/-- What is done with a source route is all that is done with the options. -/
theorem OnRoute.ends (h : OnRoute b cp opt out rest) (hopt : SourceRouteOpt opt) {forward' : Bool}
    {s' : SrcRoute}
    (hval : ((optSourceRouteT r opt cp (b (cp + 1)).toNat false s).run b).val = .next forward' s')
    (hbuf : ((optSourceRouteT r opt cp (b (cp + 1)).toNat false s).run b).buf = b')
    (hlast : b' (cp + (b (cp + 1)).toNat) = b (cp + (b (cp + 1)).toNat)) :
    (optionsRun r s b).ends = (.next forward' s', b') := by
  have hcp := h.start
  have hfits := h.fits
  have hpos : 0 < (b (cp + 1)).toNat := by
    rw [h.olen]
    omega
  obtain ⟨k, rfl⟩ : ∃ k, cp = 20 + k := ⟨cp - 20, by omega⟩
  obtain ⟨n, hn⟩ : ∃ n, ipHlen b - 20 = k + ((b (20 + k + 1)).toNat + n) :=
    ⟨ipHlen b - 20 - k - (b (20 + k + 1)).toNat, by omega⟩
  have hswitch : optSwitchT r (b.u32 ipDstAt) (b (20 + k)) (20 + k) (b (20 + k + 1)).toNat false s =
      optSourceRouteT r opt (20 + k) (b (20 + k + 1)).toNat false s := by
    rw [h.kind]
    exact if_pos hopt
  rw [optionsRun, hn, ends_nops fun i hi hlt => h.nops i hi (by omega),
    ends_opt (h.kind ▸ hopt.ne.1) (h.kind ▸ hopt.ne.2) rfl hpos (hswitch ▸ hval) (hswitch ▸ hbuf)]
  refine ends_stop ?_
  rcases h.last with hend | heol
  · exact .inl (by omega)
  · exact .inr (hlast.trans heol)

theorem OnRoute.options (h : OnRoute b cp opt out rest)
    (hends : (optionsRun g.router ⟨0, g.srcrt⟩ b).ends = (.next forward s, b')) :
    g.options b = (.next forward s, b') := by
  have hcp := h.start
  have hfits := h.fits
  have holen := h.olen
  have hexit := congrArg Prod.fst hends
  have hbuf := congrArg Prod.snd hends
  simp only [LoopRun.ends] at hexit hbuf
  rw [Gateway.options, if_pos (by omega)]
  dsimp only
  rw [ipDooptionsT_eq, LoopRun.leave, hexit, hbuf]

/-! ## One host -/

/-- The datagram at a host of the route: the next address comes up, `ia` is entered for it. -/
def entered (b : Buf) (cp : Nat) (a ia : UInt32) : Buf :=
  ((b.set32 ipDstAt a).set32 (cp + ((b (cp + 2)).toNat - 1)) ia).set8 (cp + 2) (b (cp + 2) + 4)

theorem addrs_set32 (b : Buf) (j n i : Nat) (v : UInt32) (hj : j < n) :
    addrs (b.set32 (i + 4 * j) v) i n = (addrs b i n).set j v := by
  induction n generalizing i j with
  | zero => omega
  | succ n ih =>
      cases j with
      | zero =>
          have hrest : addrs (b.set32 (i + 4 * 0) v) (i + 4) n = addrs b (i + 4) n :=
            addrs_congr fun m _ => Buf.set32_of_ne _ (by omega)
          rw [addrs, hrest, Nat.mul_zero, Nat.add_zero, Buf.u32_set32_same]
          rfl
      | succ j =>
          have hat : i + 4 * (j + 1) = i + 4 + 4 * j := by omega
          rw [addrs, hat, ih j (i + 4) (by omega), Buf.u32_set32_of_ne _ (by omega)]
          rfl

theorem OnRoute.small (h : OnRoute b cp opt out rest) :
    3 + 4 * (out.length + rest.length) ≤ 40 := by
  have hhlen := ipHlen_le b
  have hcp := h.start
  have hfits := h.fits
  have holen := h.olen
  omega

theorem getElem?_addrs (b : Buf) {j n i : Nat} (hj : j < n) :
    (addrs b i n)[j]? = some (b.u32 (i + 4 * j)) := by
  induction n generalizing i j with
  | zero => omega
  | succ n ih =>
      cases j with
      | zero => rfl
      | succ j =>
          have hat : i + 4 * (j + 1) = i + 4 + 4 * j := by omega
          rw [addrs, List.getElem?_cons_succ, ih (by omega), hat]

/-- The pointer of an option under way. -/
theorem OnRoute.off (h : OnRoute b cp opt out rest) :
    cp + ((b (cp + 2)).toNat - 1) = cp + 3 + 4 * out.length := by
  rw [h.ptr]
  omega

theorem OnRoute.next (h : OnRoute b cp opt out (a :: rest)) :
    b.u32 (cp + ((b (cp + 2)).toNat - 1)) = a := by
  have hget := getElem?_addrs b (i := cp + 3)
    (by simp : out.length < out.length + (a :: rest).length)
  rw [← hops, h.route, List.getElem?_append_right (Nat.le_refl _), Nat.sub_self] at hget
  rw [h.off]
  exact (Option.some.inj hget).symm

/-- What is not touched. -/
theorem OnRoute.entered_of (h : OnRoute b cp opt out (a :: rest)) (ia : UInt32) (i : Nat)
    (hi : i < 16 ∨ 20 ≤ i ∧ i < cp + 2 ∨ cp + (b (cp + 1)).toNat ≤ i) :
    entered b cp a ia i = b i := by
  have hcp := h.start
  have holen := h.olen
  rw [List.length_cons] at holen
  rw [entered, h.off, Buf.set8_of_ne _ (by omega), Buf.set32_of_ne _ (by omega),
    Buf.set32_of_ne _ (by rw [ipDstAt]; omega)]

theorem OnRoute.enter (h : OnRoute b cp opt out (a :: rest)) (ia : UInt32) :
    OnRoute (entered b cp a ia) cp opt (out ++ [ia]) rest := by
  have hcp := h.start
  have hsmall := h.small
  have holen := h.olen
  rw [List.length_cons] at hsmall holen
  have hbehind := h.entered_of ia
  have hlen : entered b cp a ia (cp + 1) = b (cp + 1) := hbehind _ (by omega)
  have hhlen : ipHlen (entered b cp a ia) = ipHlen b := by
    rw [ipHlen, hbehind 0 (by omega), ipHlen]
  have hhops : hops (entered b cp a ia) cp (out.length + (rest.length + 1)) =
      (hops b cp (out.length + (rest.length + 1))).set out.length ia := by
    have hdst : hops (b.set32 ipDstAt a) cp (out.length + (rest.length + 1)) =
        hops b cp (out.length + (rest.length + 1)) :=
      addrs_congr fun i _ => Buf.set32_of_ne _ (by rw [ipDstAt]; omega)
    rw [← hdst, hops, hops, ← addrs_set32 _ _ _ _ _ (by omega), ← h.off]
    exact addrs_congr fun i _ => Buf.set8_of_ne _ (by omega)
  have hcount : (out ++ [ia]).length + rest.length = out.length + (rest.length + 1) := by
    rw [List.length_append, List.length_singleton]
    omega
  exact
    { start := hcp
      nops := fun i hi hlt => (hbehind i (by omega)).trans (h.nops i hi hlt)
      kind := (hbehind cp (by omega)).trans h.kind
      olen := by rw [hlen, hcount, h.olen, List.length_cons]
      ptr := by
        have hptr := h.ptr
        have hadd : (b (cp + 2) + 4).toNat = (b (cp + 2)).toNat + 4 := toNat_add_four (by omega)
        rw [entered, Buf.set8_same, hadd, hptr, List.length_append, List.length_singleton]
        omega
      route := by
        have hall := h.route
        rw [List.length_cons] at hall
        rw [hcount, hhops, hall, List.set_append_right _ _ (Nat.le_refl _), Nat.sub_self,
          List.set_cons_zero, List.append_assoc]
        rfl
      fits := by
        rw [hlen, hhlen]
        exact h.fits
      last := by
        rw [hlen, hhlen, hbehind _ (.inr (.inr (Nat.le_refl _)))]
        exact h.last }

theorem sourceRoute_hop (h : OnRoute b cp opt out (a :: rest))
    (hhere : (r.ifaIfwithaddr (b.u32 ipDstAt)).isSome) (hia : routeIa r opt a = some ia) :
    ((optSourceRouteT r opt cp (b (cp + 1)).toNat forward s).run b).val =
        .next (!inMulticast a) s ∧
      ((optSourceRouteT r opt cp (b (cp + 1)).toNat forward s).run b).buf = entered b cp a ia := by
  have hptr := h.ptr
  have holen := h.olen
  have hcp := h.start
  obtain ⟨here, hhere⟩ := Option.isSome_iff_exists.mp hhere
  have hoff : ¬ (b (cp + 2)).toNat < ipoptMinoff := by
    rw [hptr, ipoptMinoff]
    omega
  have hroom : noRoom ((b (cp + 2)).toNat - 1) (b (cp + 1)).toNat = false := by
    rw [List.length_cons] at holen
    rw [Bool.eq_false_iff, ne_eq, noRoom_octets (by omega)]
    omega
  have hdst : (entered b cp a ia).u32 ipDstAt = a := by
    rw [entered, Buf.u32_set8_of_ne _ (by rw [ipDstAt]; omega),
      Buf.u32_set32_of_ne _ (by rw [ipDstAt]; omega), Buf.u32_set32_same]
  unfold optSourceRouteT
  simp only [bind_val, bind_buf, rd8_val, rd8_buf, rd32_val, rd32_buf, hoff, if_false, hhere, hroom,
    Bool.false_eq_true, h.next, hia, wr32_buf, wr8_buf, pure_val, pure_buf]
  have hptr' : ((b.set32 ipDstAt a).set32 (cp + ((b (cp + 2)).toNat - 1)) ia) (cp + 2) =
      b (cp + 2) := by
    rw [Buf.set32_of_ne _ (by omega), Buf.set32_of_ne _ (by rw [ipDstAt]; omega)]
  rw [hptr', ← entered, hdst]
  exact ⟨rfl, rfl⟩

theorem sourceRoute_pass (h : OnRoute b cp ipoptLsrr out rest)
    (hhere : r.ifaIfwithaddr (b.u32 ipDstAt) = none) :
    ((optSourceRouteT r ipoptLsrr cp (b (cp + 1)).toNat forward s).run b).val = .next forward s ∧
      ((optSourceRouteT r ipoptLsrr cp (b (cp + 1)).toNat forward s).run b).buf = b := by
  have hoff : ¬ (b (cp + 2)).toNat < ipoptMinoff := by
    rw [h.ptr, ipoptMinoff]
    omega
  have hloose : ¬ ipoptLsrr = ipoptSsrr := by decide
  unfold optSourceRouteT
  simp only [bind_val, bind_buf, rd8_val, rd8_buf, rd32_val, rd32_buf, hoff, if_false, hhere, hloose,
    pure_val, pure_buf]
  exact ⟨trivial, trivial⟩

/-- At the end of the route it is saved, unless nobody is on it. -/
theorem sourceRoute_end (h : OnRoute b cp opt out []) (hout : out ≠ [])
    (hhere : (r.ifaIfwithaddr (b.u32 ipDstAt)).isSome) :
    ((optSourceRouteT r opt cp (b (cp + 1)).toNat forward s).run b).val =
        .next forward (saveRte b cp (b.u32 ipSrcAt) s) ∧
      ((optSourceRouteT r opt cp (b (cp + 1)).toNat forward s).run b).buf = b := by
  have hptr := h.ptr
  have holen := h.olen
  have hpos : 0 < out.length := List.length_pos_iff.mpr hout
  obtain ⟨here, hhere⟩ := Option.isSome_iff_exists.mp hhere
  have hoff : ¬ (b (cp + 2)).toNat < ipoptMinoff := by
    rw [hptr, ipoptMinoff]
    omega
  have hroom : noRoom ((b (cp + 2)).toNat - 1) (b (cp + 1)).toNat = true := by
    rw [List.length_nil] at holen
    rw [noRoom_octets (by omega)]
    omega
  unfold optSourceRouteT
  simp only [bind_val, bind_buf, rd8_val, rd8_buf, rd32_val, rd32_buf, hoff, if_false, hhere, hroom,
    if_true, saveRteT_val, saveRteT_buf, pure_val, pure_buf]
  exact ⟨trivial, trivial⟩

/-! ## A datagram and its route -/

/-- What no host on the way changes: all but `ip_ttl`, `ip_sum`, `ip_dst` and the option behind its
length. -/
def Intact (cp : Nat) (b b' : Buf) : Prop :=
  ∀ i, i < 8 ∨ i = 9 ∨ 12 ≤ i ∧ i < 16 ∨ 20 ≤ i ∧ i < cp + 2 ∨ cp + (b (cp + 1)).toNat ≤ i →
    b' i = b i

/-- What became of `b₀` on its route: it is for `dst` now, and `ttl` is left. -/
structure Underway (b₀ : Buf) (cp : Nat) (opt : UInt8) (dst : UInt32) (ttl : Nat)
    (out rest : List UInt32) (b : Buf) : Prop where
  route : OnRoute b cp opt out rest
  dst : b.u32 ipDstAt = dst
  ttl : (b ipTtlAt).toNat = ttl
  intact : Intact cp b₀ b

/-- What became of `l₀`, on a link. -/
structure OnWire (ck : Bool) (l₀ : List UInt8) (cp : Nat) (opt : UInt8) (dst : UInt32) (ttl : Nat)
    (out rest : List UInt32) (l : List UInt8) : Prop where
  datagram : Datagram ck l
  length : l.length = l₀.length
  underway : Underway (Buf.of l₀) cp opt dst ttl out rest (Buf.of l)

/-- What became of `l₀`, at a host that has taken it in. -/
structure TakenIn (l₀ : List UInt8) (cp : Nat) (opt : UInt8) (dst : UInt32) (ttl : Nat)
    (out rest : List UInt32) (m : Chain) : Prop extends Headed m where
  whole : m.Whole
  length : m.octets.length = l₀.length
  underway : Underway (Buf.of l₀) cp opt dst ttl out rest m.octet

/-- `ip_forward` has nothing against datagrams of up to `n` octets for `dst`. -/
structure Gateway.Forwards (g : Gateway) (n : Nat) (dst : UInt32) : Prop where
  canforward : g.canforward dst = true
  routed : (g.router.ipRtaddr dst).isSome
  sends : g.sends dst = true
  mtu : n ≤ g.mtu dst

variable {b₀ : Buf} {l₀ l : List UInt8} {m : Chain} {ttl n : Nat} {ck : Bool}

theorem Underway.congr (h : Underway b₀ cp opt dst ttl out rest b)
    (hsame : ∀ i, i ≠ 10 → i ≠ 11 → b' i = b i) : Underway b₀ cp opt dst ttl out rest b' := by
  have hcp := h.route.start
  refine ⟨h.route.congr (hsame 0 (by omega) (by omega))
    (fun i hi _ => hsame i (by omega) (by omega)), ?_, ?_, ?_⟩
  · rw [← h.dst]
    refine Buf.u32_congr fun j hj hlt => ?_
    rw [ipDstAt] at hj
    exact hsame j (by omega) (by omega)
  · rw [hsame ipTtlAt (by rw [ipTtlAt]; omega) (by rw [ipTtlAt]; omega)]
    exact h.ttl
  · intro i hi
    rw [hsame i (by omega) (by omega)]
    exact h.intact i hi

/-- One hop less is left. -/
theorem Underway.older (h : Underway b₀ cp opt dst (ttl + 1) out rest b) :
    Underway b₀ cp opt dst ttl out rest (b.set8 ipTtlAt (b ipTtlAt - 1)) := by
  have hcp := h.route.start
  have hsame : ∀ i, i ≠ 8 → b.set8 ipTtlAt (b ipTtlAt - 1) i = b i :=
    fun i hi => Buf.set8_of_ne _ (by rwa [ipTtlAt])
  refine ⟨h.route.congr (hsame 0 (by omega)) (fun i hi _ => hsame i (by omega)), ?_, ?_, ?_⟩
  · rw [← h.dst]
    refine Buf.u32_congr fun j hj hlt => ?_
    rw [ipDstAt] at hj
    exact hsame j (by omega)
  · have hone : (1 : UInt8) ≤ b ipTtlAt := by
      rw [UInt8.le_iff_toNat_le, h.ttl]
      show 1 ≤ ttl + 1
      omega
    rw [Buf.set8_same, UInt8.toNat_sub_of_le _ _ hone, h.ttl]
    rfl
  · intro i hi
    rw [hsame i (by omega)]
    exact h.intact i hi

/-- The next address comes up. -/
theorem Underway.enter (h : Underway b₀ cp opt dst ttl out (a :: rest) b) (ia : UInt32) :
    Underway b₀ cp opt a ttl (out ++ [ia]) rest (entered b cp a ia) := by
  have hcp := h.route.start
  have hlen : b (cp + 1) = b₀ (cp + 1) := h.intact _ (by omega)
  have hbehind := h.route.entered_of ia
  refine ⟨h.route.enter ia, ?_, ?_, ?_⟩
  · rw [entered, Buf.u32_set8_of_ne _ (by rw [ipDstAt]; omega),
      Buf.u32_set32_of_ne _ (by rw [ipDstAt]; omega), Buf.u32_set32_same]
  · rw [hbehind ipTtlAt (by rw [ipTtlAt]; omega), h.ttl]
  · intro i hi
    rw [hbehind i (by rw [hlen]; omega)]
    exact h.intact i hi

/-! ### In mbufs -/

theorem Chain.octet_set8 {k : Nat} (hk : k < m.mLen) (v : UInt8) :
    (m.withData (m.data.set8 k v)).octet = m.octet.set8 k v := by
  funext i
  by_cases hi : i = k
  · subst hi
    rw [Chain.octet_lt (show i < (m.withData (m.data.set8 i v)).mLen from hk), Buf.set8_same]
    exact Buf.set8_same v
  · rw [Chain.octet_withData _ _ _ (Buf.set8_of_ne v hi), Buf.set8_of_ne v hi]

theorem TakenIn.data (h : TakenIn l₀ cp opt dst ttl out rest m) {i : Nat} (hi : i < ipHlen m.data) :
    m.data i = m.octet i := by
  have hpull := h.pullup
  rw [Chain.octet_lt (by omega)]

theorem TakenIn.u32 (h : TakenIn l₀ cp opt dst ttl out rest m) {i : Nat} (hi : i + 4 ≤ 20) :
    m.data.u32 i = m.octet.u32 i := by
  have hmin := h.min
  exact Buf.u32_congr fun j _ hj => h.data (by omega)

theorem TakenIn.route (h : TakenIn l₀ cp opt dst ttl out rest m) :
    OnRoute m.data cp opt out rest := by
  have hmin := h.min
  have hfirst : m.data 0 = m.octet 0 := h.data (by omega)
  refine h.underway.route.congr hfirst fun i _ hi => h.data ?_
  rwa [ipHlen, hfirst, ← ipHlen]

theorem TakenIn.src_eq (h : TakenIn l₀ cp opt dst ttl out rest m) :
    m.data.u32 ipSrcAt = (Buf.of l₀).u32 ipSrcAt := by
  have hcp := h.underway.route.start
  rw [h.u32 (by decide)]
  exact Buf.u32_congr fun j hj hlt => h.underway.intact j (by rw [ipSrcAt] at hj hlt; omega)

theorem TakenIn.dst_eq (h : TakenIn l₀ cp opt dst ttl out rest m) : m.data.u32 ipDstAt = dst := by
  rw [h.u32 (by decide)]
  exact h.underway.dst

theorem TakenIn.ttl_eq (h : TakenIn l₀ cp opt dst ttl out rest m) :
    (m.data ipTtlAt).toNat = ttl := by
  have hmin := h.min
  rw [h.data (by rw [ipTtlAt]; omega)]
  exact h.underway.ttl

/-- What is sent of what was taken in. -/
theorem TakenIn.seal (h : TakenIn l₀ cp opt dst ttl out rest m) (host : OutHost)
    (hck : ck = true → host.cksumSnd = true) :
    OnWire ck l₀ cp opt dst ttl out rest (host.seal m).octets := by
  refine ⟨datagram_seal h.whole hck, ?_, ?_⟩
  · rw [← h.length]
    exact Chain.length_withData _ _
  · rw [Chain.of_octets]
    exact h.underway.congr fun i h₁₀ h₁₁ => seal_octet host m h₁₀ h₁₁

/-- What is on a link is taken in. -/
theorem OnWire.takenIn (h : OnWire ck l₀ cp opt dst ttl out rest l) (hg : g.Ready ck) :
    ∃ m, g.ipintr l = g.ipintrRest m ∧ TakenIn l₀ cp opt dst ttl out rest m := by
  obtain ⟨m, hm, hwhole, hheaded, hlength, hoctet⟩ :=
    ipintrHead_spec hg h.datagram (g.driver.all l)
  refine ⟨m, ?_, hheaded, hwhole, hlength.trans h.length, h.underway.congr hoctet⟩
  rw [Gateway.ipintr, hm]

theorem TakenIn.older (h : TakenIn l₀ cp opt dst (ttl + 1) out rest m) :
    TakenIn l₀ cp opt dst ttl out rest (m.withData (m.data.set8 ipTtlAt (m.data ipTtlAt - 1))) := by
  have hlen := h.toHeaded.mLen
  have hmin := h.min
  have hsame : ∀ i, i ≠ 8 → m.data.set8 ipTtlAt (m.data ipTtlAt - 1) i = m.data i :=
    fun i hi => Buf.set8_of_ne _ (by rwa [ipTtlAt])
  refine ⟨h.toHeaded.withData (hsame 0 (by omega)),
    h.whole.withData (hsame 0 (by omega)) (hsame 2 (by omega)) (hsame 3 (by omega)), ?_, ?_⟩
  · rw [← h.length, Chain.length_withData]
  · rw [Chain.octet_set8 (by rw [ipTtlAt]; omega), h.data (by rw [ipTtlAt]; omega)]
    exact h.underway.older

theorem ipForward_takenIn (h : TakenIn l₀ cp opt dst (ttl + 1) out rest m) (httl : 0 < ttl)
    (hsrc : (Buf.of l₀).u32 ipSrcAt ≠ 0) (hlong : l₀.length ≤ n) (hg : g.Forwards n dst)
    (hready : g.Ready ck) :
    ∃ l, g.ipForward m = .forwarded l ∧ OnWire ck l₀ cp opt dst ttl out rest l := by
  obtain ⟨ia, hia⟩ := Option.isSome_iff_exists.mp hg.routed
  have holder := h.older
  have hsrc' : ¬ (m.data.set8 ipTtlAt (m.data ipTtlAt - 1)).u32 ipSrcAt = 0 := by
    have hsame := holder.src_eq
    rw [← hsame] at hsrc
    exact hsrc
  have hmany : ¬ (m.data ipTtlAt).toNat ≤ 1 := by
    rw [h.ttl_eq]
    omega
  have hfits : ¬ g.mtu dst < ((m.data.set8 ipTtlAt (m.data ipTtlAt - 1)).u16 ipLenAt).toNat := by
    have hmtu := hg.mtu
    have hlen := holder.whole.len
    rw [holder.length] at hlen
    rw [show ((m.data.set8 ipTtlAt (m.data ipTtlAt - 1)).u16 ipLenAt).toNat = _ from hlen]
    omega
  refine ⟨_, ?_, holder.seal g.toOutHost hready.computes⟩
  rw [Gateway.ipForward]
  simp only [h.dst_eq, hg.canforward, hg.sends, hia, hmany, hsrc', hfits, Bool.true_eq_false,
    if_false]

theorem entered_congr {i : Nat} (ha : b' (cp + 2) = b (cp + 2)) (hi : b' i = b i) :
    entered b' cp a ia i = entered b cp a ia i := by
  simp only [entered, Buf.set8, Buf.set32, ha, hi]

theorem TakenIn.enter (h : TakenIn l₀ cp opt dst ttl out (a :: rest) m) (ia : UInt32) :
    TakenIn l₀ cp opt a ttl (out ++ [ia]) rest (m.withData (entered m.data cp a ia)) := by
  have hmin := h.min
  have hpull := h.pullup
  have hfits := h.route.fits
  have holen := h.route.olen
  rw [List.length_cons] at holen
  have hbehind := h.route.entered_of ia
  refine ⟨h.toHeaded.withData (hbehind 0 (by omega)),
    h.whole.withData (hbehind 0 (by omega)) (hbehind 2 (by omega)) (hbehind 3 (by omega)), ?_, ?_⟩
  · rw [← h.length, Chain.length_withData]
  · have hoctet : (m.withData (entered m.data cp a ia)).octet = entered m.octet cp a ia := by
      funext i
      rcases Nat.lt_or_ge i m.mLen with hi | hi
      · rw [Chain.octet_lt (show i < (m.withData (entered m.data cp a ia)).mLen from hi)]
        exact entered_congr (h.data (by omega)) (Chain.octet_lt hi).symm
      · have hlen : m.octet (cp + 1) = m.data (cp + 1) := (h.data (by omega)).symm
        rw [Chain.octet_withData _ _ _ (hbehind i (by omega)),
          h.underway.route.entered_of ia i (by rw [hlen]; omega)]
    rw [hoctet]
    exact h.underway.enter ia

/-- At a host of the route: it takes the next address, enters its own, and sends the datagram on. -/
theorem ipintr_hop (h : OnWire ck l₀ cp opt dst (ttl + 1) out (a :: rest) l)
    (hopt : SourceRouteOpt opt) (httl : 0 < ttl) (hsrc : (Buf.of l₀).u32 ipSrcAt ≠ 0)
    (hlong : l₀.length ≤ n) (hready : g.Ready ck)
    (hhere : (g.router.ifaIfwithaddr dst).isSome) (hia : routeIa g.router opt a = some ia)
    (hmulti : inMulticast a = false) (hg : g.Forwards n a) :
    ∃ l', g.ipintr l = .forwarded l' ∧ OnWire ck l₀ cp opt a ttl (out ++ [ia]) rest l' := by
  obtain ⟨m, hm, htaken⟩ := h.takenIn hready
  obtain ⟨l', hsent, hwire⟩ := ipForward_takenIn (htaken.enter ia) httl hsrc hlong hg hready
  obtain ⟨hval, hbuf⟩ := @sourceRoute_hop _ _ _ _ _ false ⟨0, g.srcrt⟩ _ _ _ htaken.route
    (htaken.dst_eq.symm ▸ hhere) hia
  rw [hmulti] at hval
  have hopts := htaken.route.options (htaken.route.ends hopt hval hbuf
    (htaken.route.entered_of ia _ (.inr (.inr (Nat.le_refl _)))))
  refine ⟨l', ?_, hwire⟩
  rw [hm, Gateway.ipintrRest, hopts]
  exact hsent

/-- A host that is not on a loose route sends the datagram on as it is. -/
theorem ipintr_pass (h : OnWire ck l₀ cp ipoptLsrr dst (ttl + 1) out rest l) (httl : 0 < ttl)
    (hsrc : (Buf.of l₀).u32 ipSrcAt ≠ 0) (hlong : l₀.length ≤ n) (hready : g.Ready ck)
    (hhere : g.router.ifaIfwithaddr dst = none)
    (hours : g.ours dst = false) (hmulti : inMulticast dst = false)
    (hdst : dst ≠ 0xffffffff ∧ dst ≠ 0) (hforwarding : g.forwarding = true)
    (hg : g.Forwards n dst) :
    ∃ l', g.ipintr l = .forwarded l' ∧ OnWire ck l₀ cp ipoptLsrr dst ttl out rest l' := by
  obtain ⟨m, hm, htaken⟩ := h.takenIn hready
  obtain ⟨l', hsent, hwire⟩ := ipForward_takenIn htaken httl hsrc hlong hg hready
  obtain ⟨hval, hbuf⟩ := @sourceRoute_pass _ _ false ⟨0, g.srcrt⟩ _ _ _ htaken.route
    (htaken.dst_eq.symm ▸ hhere)
  have hopts := htaken.route.options (htaken.route.ends (.inl rfl) hval hbuf rfl)
  have hdata : (m.withData m.data).data.u32 ipDstAt = dst := htaken.dst_eq
  refine ⟨l', ?_, hwire⟩
  rw [hm, Gateway.ipintrRest, hopts]
  dsimp only
  simp only [hdata, hours, hmulti, hdst.1, hdst.2, or_self, hforwarding, Bool.false_eq_true,
    if_false, if_true]
  exact hsent

/-- The last host of the route keeps the datagram, and the route. -/
theorem ipintr_end (h : OnWire ck l₀ cp opt dst ttl out [] l) (hopt : SourceRouteOpt opt)
    (hout : out ≠ []) (hready : g.Ready ck) (hhere : (g.router.ifaIfwithaddr dst).isSome)
    (hours : g.ours dst = true) :
    ∃ m, g.ipintr l = .ours (saveRte m.data cp ((Buf.of l₀).u32 ipSrcAt) ⟨0, g.srcrt⟩) m ∧
      TakenIn l₀ cp opt dst ttl out [] m := by
  obtain ⟨m, hm, htaken⟩ := h.takenIn hready
  obtain ⟨hval, hbuf⟩ := @sourceRoute_end _ _ _ false ⟨0, g.srcrt⟩ _ _ htaken.route hout
    (htaken.dst_eq.symm ▸ hhere)
  have hopts := htaken.route.options (htaken.route.ends hopt hval hbuf rfl)
  have hdata : (m.withData m.data).data.u32 ipDstAt = dst := htaken.dst_eq
  refine ⟨m, ?_, htaken⟩
  rw [hm, Gateway.ipintrRest, hopts]
  simp only [hdata, hours, if_true, htaken.src_eq]
  rfl

end VxWorks.Netinet
