import VxWorks.Lib.Buffer
import VxWorks.Netinet.IpOutput

/-!
# The source route kept for replies (ip_input.c)

A datagram that came by a source route is answered by the same route, taken
backwards: `save_rte` copies the option as it stands at the end of its route,
and `ip_srcroute` makes of the copy a block of options as `setsockopt` takes
them, with the first hop in front of the options.

The copy is kept in `struct ip_srcrt` and lies in it so that the addresses are
aligned: the option's own three octets come behind a NOP. The block therefore
has the NOP too, and is longer than the option and the first hop together. The
length octet is the option's own; octets of the option behind its last whole
address are counted in it still, but not in the block.

`mBufClGet` may have no cluster: the caller says which one it gives.
-/

namespace VxWorks.Netinet

open VxWorks.Lib

/-- `IPOPT_OFFSET`, where an option keeps its pointer. -/
def ipoptOffset : Nat := 2

/-- Where the fields of `struct ip_srcrt` lie. -/
def srcrtDst : Nat := 0

def srcrtNop : Nat := 4

def srcrtSrcopt : Nat := 5

def srcrtRoute : Nat := 8

/-- `sizeof (ip_srcrt)`. -/
def srcrtSize : Nat := 48

/-- `ip_nhops` and `ip_srcrt`. -/
structure SrcRoute where
  nhops : Nat
  srcrt : Buf

/-- The mbuf of options: `m_len` and the data. -/
structure OptMbuf where
  len : Nat
  data : Buf

/-- `save_rte`, for the option at `cp`. The number of hops is computed without sign. -/
def saveRte (b : Buf) (cp : Nat) (dst : UInt32) (s : SrcRoute) : SrcRoute :=
  let olen := (b (cp + 1)).toNat
  if srcrtSize - (1 + 4) < olen then s
  else
    { nhops := (olen + 0x100000000 - ipoptOffset - 1) % 0x100000000 / 4
      srcrt := (s.srcrt.putAt srcrtSrcopt (b.slice cp olen)).set32 srcrtDst dst }

/-- `OPTSIZ` -/
def optsiz : Nat := 4

/-- `while (p >= ip_srcrt.route) *q++ = *p--`, with the number of addresses from the
first one to `p`. -/
def returnPath (srcrt : Buf) : Nat → Nat → Buf → Nat × Buf
  | 0, q, m => (q, m)
  | p + 1, q, m => returnPath srcrt p (q + 4) (m.set32 q (srcrt.u32 (srcrtRoute + 4 * p)))

/-- `ip_srcroute`; `m` is what `mBufClGet` gives. -/
def ipSrcroute (m : Option Buf) (s : SrcRoute) : Option OptMbuf × SrcRoute :=
  if s.nhops = 0 then (none, s)
  else
    match m with
    | none => (none, s)
    | some m =>
        let m := m.set32 0 (s.srcrt.u32 (srcrtRoute + 4 * (s.nhops - 1)))
        let srcrt := (s.srcrt.set8 srcrtNop ipoptNop).set8 (srcrtSrcopt + ipoptOffset) 4
        let m := m.putAt 4 (srcrt.slice srcrtNop optsiz)
        let (q, m) := returnPath srcrt (s.nhops - 1) (4 + optsiz) m
        (some ⟨s.nhops * 4 + 4 + optsiz, m.set32 q (srcrt.u32 srcrtDst)⟩, { s with srcrt })

/-! ## Rows of addresses -/

/-- The `n` addresses from `k` on. -/
def addrs (b : Buf) : Nat → Nat → List UInt32
  | _, 0 => []
  | k, n + 1 => b.u32 k :: addrs b (k + 4) n

/-- The hops of the source route at `cp`. -/
def hops (b : Buf) (cp n : Nat) : List UInt32 := addrs b (cp + 3) n

/-- Where a block leads: the first hop, then the addresses of its option. -/
def OptMbuf.route (p : OptMbuf) (n : Nat) : List UInt32 :=
  p.data.u32 0 :: addrs p.data (4 + optsiz) n

@[simp] theorem length_addrs (b : Buf) (k n : Nat) : (addrs b k n).length = n := by
  induction n generalizing k with
  | zero => rfl
  | succ n ih => rw [addrs, List.length_cons, ih]

@[simp] theorem length_hops (b : Buf) (cp n : Nat) : (hops b cp n).length = n :=
  length_addrs b (cp + 3) n

theorem addrs_succ (b : Buf) (k n : Nat) :
    addrs b k (n + 1) = addrs b k n ++ [b.u32 (k + 4 * n)] := by
  induction n generalizing k with
  | zero => rfl
  | succ n ih =>
      have hat : k + 4 + 4 * n = k + 4 * (n + 1) := by omega
      rw [addrs, ih, addrs, List.cons_append, hat]

theorem addrs_congr {b c : Buf} {k j n : Nat} (h : ∀ i, i < 4 * n → b (k + i) = c (j + i)) :
    addrs b k n = addrs c j n := by
  induction n generalizing k j with
  | zero => rfl
  | succ n ih =>
      have hrest : addrs b (k + 4) n = addrs c (j + 4) n := by
        refine ih ?_
        intro i hi
        rw [Nat.add_assoc, Nat.add_assoc]
        exact h (4 + i) (by omega)
      have hfirst : b.u32 k = c.u32 j := by
        rw [Buf.u32, Buf.u32, h 1 (by omega), h 2 (by omega), h 3 (by omega)]
        exact congrArg (get32 · _ _ _) (h 0 (by omega))
      rw [addrs, addrs, hrest, hfirst]

/-! ## The way back -/

theorem returnPath_fst (srcrt : Buf) (p q : Nat) (m : Buf) :
    (returnPath srcrt p q m).1 = q + 4 * p := by
  induction p generalizing q m with
  | zero => rfl
  | succ p ih =>
      rw [returnPath, ih]
      omega

/-- Nothing but the addresses behind `q` is written. -/
theorem returnPath_frame (srcrt : Buf) (p q : Nat) (m : Buf) {i : Nat}
    (h : i < q ∨ q + 4 * p ≤ i) : (returnPath srcrt p q m).2 i = m i := by
  induction p generalizing q m with
  | zero => rfl
  | succ p ih =>
      rw [returnPath, ih (q + 4) _ (by omega)]
      exact Buf.set32_of_ne _ (by omega)

theorem returnPath_reverses (srcrt : Buf) (p q : Nat) (m : Buf) :
    addrs (returnPath srcrt p q m).2 q p = (addrs srcrt srcrtRoute p).reverse := by
  induction p generalizing q m with
  | zero => rfl
  | succ p ih =>
      have hfirst : (returnPath srcrt (p + 1) q m).2.u32 q = srcrt.u32 (srcrtRoute + 4 * p) := by
        rw [returnPath, Buf.u32_congr fun j _ hj => returnPath_frame srcrt p (q + 4) _ (.inl hj)]
        exact Buf.u32_set32_same _
      rw [addrs, hfirst, addrs_succ, List.reverse_append, List.reverse_singleton,
        List.singleton_append, returnPath, ih]

/-! ## What was saved -/

/-- `save_rte` has saved the source route at `cp`, of `n` whole hops. -/
structure RouteSaved (s : SrcRoute) (b : Buf) (cp n : Nat) (src : UInt32) : Prop where
  nhops : s.nhops = n
  dst : s.srcrt.u32 srcrtDst = src
  opt : s.srcrt srcrtSrcopt = b cp
  olen : s.srcrt (srcrtSrcopt + 1) = b (cp + 1)
  route : addrs s.srcrt srcrtRoute n = hops b cp n

/-- The octets of a source route of `n` whole hops, and perhaps some behind them. -/
structure WholeHops (b : Buf) (cp n : Nat) : Prop where
  room : 3 + 4 * n ≤ (b (cp + 1)).toNat
  most : (b (cp + 1)).toNat < 3 + 4 * (n + 1)

theorem saveRte_saves {b : Buf} {cp n : Nat} (h : WholeHops b cp n) (hmax : (b (cp + 1)).toNat ≤ 43)
    (src : UInt32) (s : SrcRoute) : RouteSaved (saveRte b cp src s) b cp n src := by
  have hroom := h.room
  have hmost := h.most
  have hlong : ¬ srcrtSize - (1 + 4) < (b (cp + 1)).toNat := by
    rw [srcrtSize]
    omega
  rw [saveRte, if_neg hlong]
  generalize holen : (b (cp + 1)).toNat = olen at hroom hmost
  have hat : ∀ i, i < olen →
      ((s.srcrt.putAt srcrtSrcopt (b.slice cp olen)).set32 srcrtDst src) (srcrtSrcopt + i) =
        b (cp + i) := by
    intro i hi
    rw [Buf.set32_of_ne _ (by rw [srcrtSrcopt, srcrtDst]; omega), Buf.putAt,
      if_pos (by rw [Buf.length_slice]; omega), Nat.add_sub_cancel_left]
    simp [Buf.slice, hi]
  refine ⟨?_, Buf.u32_set32_same _, hat 0 (by omega), hat 1 (by omega), ?_⟩
  · simp only [ipoptOffset]
    omega
  · refine addrs_congr ?_
    intro i hi
    have hopt : srcrtRoute + i = srcrtSrcopt + (3 + i) := by
      rw [srcrtRoute, srcrtSrcopt]
      omega
    rw [hopt, Nat.add_assoc]
    exact hat (3 + i) (by omega)

/-! ## The block -/

/-- What `ip_srcroute` makes of a saved source route. -/
structure Reversed (p : OptMbuf) (b : Buf) (cp n : Nat) (src : UInt32) : Prop where
  len : p.len = 4 + (1 + (3 + 4 * n))
  nop : p.data 4 = ipoptNop
  opt : p.data 5 = b cp
  olen : p.data 6 = b (cp + 1)
  offset : p.data 7 = 4
  route : p.route n = (hops b cp n).reverse ++ [src]

theorem ipSrcroute_reverses {s : SrcRoute} {b : Buf} {cp n : Nat} {src : UInt32}
    (h : RouteSaved s b cp n src) (hn : 1 ≤ n) (m : Buf) :
    ∃ p, (ipSrcroute (some m) s).1 = some p ∧ Reversed p b cp n src := by
  obtain ⟨k, rfl⟩ : ∃ k, n = k + 1 := ⟨n - 1, by omega⟩
  have hsome : s.nhops ≠ 0 := by
    rw [h.nhops]
    omega
  rw [ipSrcroute, if_neg hsome, h.nhops, Nat.add_sub_cancel]
  dsimp only
  refine ⟨_, rfl, ?_⟩
  generalize hsrcrt : (s.srcrt.set8 srcrtNop ipoptNop).set8 (srcrtSrcopt + ipoptOffset) 4 = srcrt
  have hsame : ∀ i, i ≠ 4 ∧ i ≠ 7 → srcrt i = s.srcrt i := by
    intro i hi
    rw [← hsrcrt]
    exact (Buf.set8_of_ne _ hi.2).trans (Buf.set8_of_ne _ hi.1)
  have hroute : addrs srcrt srcrtRoute (k + 1) = hops b cp (k + 1) := by
    rw [← h.route]
    exact addrs_congr fun i _ => hsame _ (by rw [srcrtRoute]; omega)
  have hlast : s.srcrt.u32 (srcrtRoute + 4 * k) = srcrt.u32 (srcrtRoute + 4 * k) :=
    Buf.u32_congr fun j hj _ => (hsame j (by rw [srcrtRoute] at hj; omega)).symm
  have hdst : srcrt.u32 srcrtDst = src := by
    rw [← h.dst]
    exact Buf.u32_congr fun j _ hj => hsame j (by rw [srcrtDst] at hj; omega)
  rw [hlast, hdst, returnPath_fst]
  generalize hm₁ : m.set32 0 (srcrt.u32 (srcrtRoute + 4 * k)) = m₁
  generalize hm₂ : m₁.putAt 4 (srcrt.slice srcrtNop optsiz) = m₂
  generalize hm₃ : (returnPath srcrt k (4 + optsiz) m₂).2 = m₃
  have hfront : ∀ i, i < 8 → (m₃.set32 (4 + optsiz + 4 * k) src) i = m₂ i := by
    intro i hi
    rw [Buf.set32_of_ne _ (by rw [optsiz]; omega), ← hm₃]
    exact returnPath_frame _ _ _ _ (by rw [optsiz]; omega)
  have hopt : ∀ i, i < 4 → m₂ (4 + i) = srcrt (4 + i) := by
    intro i hi
    rw [← hm₂, Buf.putAt, if_pos (by rw [Buf.length_slice, optsiz]; omega),
      Nat.add_sub_cancel_left]
    simp [Buf.slice, optsiz, srcrtNop, hi]
  have hfirst : (m₃.set32 (4 + optsiz + 4 * k) src).u32 0 = srcrt.u32 (srcrtRoute + 4 * k) := by
    rw [Buf.u32_congr fun j _ hj => hfront j (by omega), ← hm₂,
      Buf.u32_congr fun j _ hj => Buf.putAt_of_lt (srcrt.slice srcrtNop optsiz) hj, ← hm₁]
    exact Buf.u32_set32_same _
  have hrest : addrs (m₃.set32 (4 + optsiz + 4 * k) src) (4 + optsiz) k =
      (addrs srcrt srcrtRoute k).reverse := by
    rw [← returnPath_reverses srcrt k (4 + optsiz) m₂, hm₃]
    exact addrs_congr fun i hi => Buf.set32_of_ne _ (.inl (by omega))
  refine ⟨?_, (hfront 4 (by decide)).trans ?_, (hfront 5 (by decide)).trans ?_,
    (hfront 6 (by decide)).trans ?_, (hfront 7 (by decide)).trans ?_, ?_⟩
  · show (k + 1) * 4 + 4 + optsiz = _
    rw [optsiz]
    omega
  · rw [hopt 0 (by decide), ← hsrcrt]
    rfl
  · rw [hopt 1 (by decide), hsame 5 (by decide)]
    exact h.opt
  · rw [hopt 2 (by decide), hsame 6 (by decide)]
    exact h.olen
  · rw [hopt 3 (by decide), ← hsrcrt]
    rfl
  · rw [OptMbuf.route, addrs_succ, hrest, hfirst, Buf.u32_set32_same, ← hroute, addrs_succ,
      List.reverse_append]
    rfl

/-- A source route of `n ≥ 1` whole hops that was saved comes back as a block that begins with its
last hop and leads over the others, backwards, to the source. The block's length is that of the
first hop, a NOP and an option of `n` hops. When the route is reversed once more, where the way
back ends, the hops are in their first order again. -/
theorem ip_srcroute_correct {b : Buf} {cp n : Nat} (h : WholeHops b cp n) (hn : 1 ≤ n)
    (hsave : (b (cp + 1)).toNat ≤ 43) (src : UInt32) (s : SrcRoute) (m : Buf) :
    ∃ p, (ipSrcroute (some m) (saveRte b cp src s)).1 = some p ∧ Reversed p b cp n src ∧
      ∀ b' cp' dst s' m', b' (cp' + 1) = p.data 6 → hops b' cp' n = (p.route n).take n →
        ∃ p', (ipSrcroute (some m') (saveRte b' cp' dst s')).1 = some p' ∧
          p'.route n = hops b cp n ++ [dst] := by
  obtain ⟨p, hp, hrev⟩ := ipSrcroute_reverses (saveRte_saves h hsave src s) hn m
  refine ⟨p, hp, hrev, ?_⟩
  intro b' cp' dst s' m' holen hhops
  rw [hrev.olen] at holen
  have h' : WholeHops b' cp' n := ⟨holen ▸ h.room, holen ▸ h.most⟩
  obtain ⟨p', hp', hback⟩ :=
    ipSrcroute_reverses (saveRte_saves h' (holen ▸ hsave) dst s') hn m'
  refine ⟨p', hp', ?_⟩
  have htake : hops b' cp' n = (hops b cp n).reverse := by
    rw [hhops, hrev.route, List.take_left' (by simp)]
  rw [hback.route, htake, List.reverse_reverse]

theorem ip_srcroute_two_hops :
    ∃ p, (ipSrcroute (some fun _ => 0) (saveRte (Buf.of [131, 11, 12, 10, 0, 0, 1, 10, 0, 0, 2])
        0 0x0a000009 ⟨0, fun _ => 0⟩)).1 = some p ∧
      p.len = 16 ∧ p.route 2 = [0x0a000002, 0x0a000001, 0x0a000009] := by
  have hwhole : WholeHops (Buf.of [131, 11, 12, 10, 0, 0, 1, 10, 0, 0, 2]) 0 2 :=
    ⟨by decide, by decide⟩
  obtain ⟨p, hp, hrev, -⟩ := ip_srcroute_correct hwhole (by decide) (by decide) 0x0a000009
    ⟨0, fun _ => 0⟩ (fun _ => 0)
  refine ⟨p, hp, hrev.len, hrev.route.trans ?_⟩
  decide

/-- The block of a route of one hop, 12 octets, is longer than the hop and the option of 7 octets:
the NOP is in it. Where two octets follow the hop the block is no longer, but its option says 9. -/
theorem ip_srcroute_counts_nop :
    (ipSrcroute (some fun _ => 0) (saveRte (Buf.of [131, 7, 8, 10, 0, 0, 1]) 0 0x0a000009
        ⟨0, fun _ => 0⟩)).1.map (fun p => (p.len, p.data 6)) = some (12, 7) ∧
      (ipSrcroute (some fun _ => 0) (saveRte (Buf.of [131, 9, 8, 10, 0, 0, 1, 0, 0]) 0 0x0a000009
        ⟨0, fun _ => 0⟩)).1.map (fun p => (p.len, p.data 6)) = some (12, 9) ∧
      12 ≠ 4 + 7 := by
  decide

end VxWorks.Netinet
