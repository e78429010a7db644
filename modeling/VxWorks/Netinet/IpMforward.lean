import VxWorks.Netinet.IpIntr
import VxWorks.Netinet.VifTable

/-!
# Forwarding multicast datagrams (ip_mroute.c)

`ip_mforward` looks for the route of the source of a datagram. If the datagram came in through the
parent of the route, a copy goes to every child with a threshold below `ip_ttl`, but to a leaf only
if the group has members there.

The copy for a tunnel has a header of its own. The one for a physical interface has not: `m_copy`
copies no octets, so what `ip_output` writes to the header is there when the next child has its
turn. `ip_ttl` is one lower then, whether the copy was sent or not, and where `htons` exchanges
octets `ip_len` and `ip_off` are the wrong way round. An interface takes a datagram in one piece,
and has its octets when its output routine returns.

A lookup remembers the route, and a question for a group the answer. Neither changes what is
forwarded: it is a function of the routes, the interfaces and the lists of groups.

The header under `src` that should define `VIFM_ISSET` belongs to another release; it is taken to
test one bit of a word.
-/

namespace VxWorks.Netinet

open VxWorks.Lib

/-- `INADDR_MAX_LOCAL_GROUP` -/
def inaddrMaxLocalGroup : UInt32 := 0xe00000ff

/-- `VIFM_ISSET` -/
def vifmIsset (vifi : Nat) (m : UInt32) : Bool := m &&& ((1 : UInt32) <<< UInt32.ofNat vifi) != 0

/-- What `phyint_send` and `tunnel_send` come upon: whether there are mbufs for the copy, and of the
interface that `ip_output` goes to whether it has `IFF_MULTICAST`, whether it is `loif`, and its
address in `in_ifaddr`. -/
structure Outlet where
  mbufs : Bool
  multicast : Bool
  loif : Bool
  addr : Option UInt32

/-- Nothing keeps a copy from being sent. -/
structure Outlet.Open (o : Outlet) : Prop where
  mbufs : o.mbufs = true
  multicast : o.multicast = true
  loif : o.loif = false

/-- A source that is not specified yet. -/
def Outlet.source (o : Outlet) (b : Buf) : Buf :=
  if b.u32 ipSrcAt = 0 then
    match o.addr with
    | none => b
    | some addr => b.set32 ipSrcAt addr
  else b

/-- `ip_off` where it stands in the header. -/
def ipOffAt : Nat := 6

/-- `ip_len` and `ip_off` after `htons`, for who takes them to be as they were. -/
def ByteOrder.htonsHdr (bo : ByteOrder) (b : Buf) : Buf :=
  let b := b.set16 ipLenAt (UInt16.ofNat (bo.htons (b.u16 ipLenAt).toNat))
  b.set16 ipOffAt (UInt16.ofNat (bo.htons (b.u16 ipOffAt).toNat))

/-- `phyint_send`: the copy, if `ip_output` sends one, and what is left of the datagram. -/
def phyintSend (host : OutHost) (o : Outlet) (m : Chain) : Option Chain × Chain :=
  if o.mbufs = false then (none, m)
  else
    -- `imo_multicast_ttl`
    let b := m.data.set8 ipTtlAt (m.data ipTtlAt - 1)
    if o.multicast = false then (none, m.withData b)
    else
      let b := o.source b
      if b ipTtlAt = 0 ∨ o.loif = true then (none, m.withData b)
      else
        let copy := host.seal (m.withData b)
        (some copy, copy.withData (host.bo.htonsHdr copy.data))

/-- The far end of a tunnel and the near one. -/
def VifEntry.ends (v : VifEntry) : Vif := ⟨v.lclAddr, v.rmtAddr⟩

/-- Whether a copy should be forwarded to the interface. -/
def mforwardTest (rt : Mrt) (ttl : UInt8) (group : UInt32) (vifi : Nat) (t : VifTable) :
    Bool × VifTable :=
  let vif := t.viftable vifi
  if vif.threshold < ttl ∧ vifmIsset vifi rt.children = true then
    if vifmIsset vifi rt.leaves = false then (true, t)
    else
      let r := grplstMember vif group
      (r.1, t.set vifi r.2)
  else (false, t)

/-- The copy for an interface, as `ip_output` sends it, and what is left of the datagram. -/
def mforwardSend (host : OutHost) (vif : VifEntry) (o : Outlet) (m : Chain) :
    Option Chain × Chain :=
  if vif.tunnel then
    ((tunnelSend vif.ends o.mbufs m).map fun c => host.seal (c.withData (o.source c.data)), m)
  else phyintSend host o m

/-- The loop of `ip_mforward` over the interfaces: each copy with the interface it is for, and what
is left of the datagram. -/
def mforwardLoop (rt : Mrt) (host : OutHost) (outlets : Nat → Outlet) :
    List Nat → Chain → VifTable → List (Nat × Chain) × Chain × VifTable
  | [], m, t => ([], m, t)
  | vifi :: vifs, m, t =>
      let r := mforwardTest rt (m.data ipTtlAt) (m.data.u32 ipDstAt) vifi t
      let sent := if r.1 then mforwardSend host (t.viftable vifi) (outlets vifi) m else (none, m)
      let rest := mforwardLoop rt host outlets vifs sent.2 r.2
      ((sent.1.map (Prod.mk vifi)).toList ++ rest.1, rest.2)

/-- Whether a datagram that came in through the interface `ifp`, or from the tunnel of which
`tunnelSrc` is the other end, came from the parent. -/
def VifEntry.parentOf (v : VifEntry) (ifp : Nat) (tunnelSrc : UInt32) : Bool :=
  if tunnelSrc = 0 then !v.tunnel && v.ifp == ifp else v.tunnel && v.rmtAddr == tunnelSrc

/-- Whether the datagram is to be discarded, the copies, what is left of the datagram, and the
tables. -/
structure Mforwarded where
  discard : Bool
  copies : List (Nat × Chain)
  left : Chain
  router : Mrouter

/-- `ip_mforward` behind its beginning; `none` is a lookup that never returns. -/
def mforwardRoute (c : MrtConf) (host : OutHost) (outlets : Nat → Outlet) (ifp : Nat)
    (tunnelSrc : UInt32) (m : Chain) (s : Mrouter) : Option Mforwarded :=
  let discard := tunnelSrc != 0
  if m.data ipTtlAt ≤ 1 ∨ m.data.u32 ipDstAt ≤ inaddrMaxLocalGroup then some ⟨discard, [], m, s⟩
  else
    match mrtfind c (m.data.u32 ipSrcAt) s.mrt with
    | none => none
    | some (none, mrt) => some ⟨discard, [], m, { s with mrt }⟩
    | some (some rt, mrt) =>
        let vifi := (mrt.mrt rt).parent.toNat
        if (s.vifs.viftable vifi).parentOf ifp tunnelSrc then
          let r := mforwardLoop (mrt.mrt rt) host outlets (List.range s.vifs.numvifs) m s.vifs
          some ⟨discard, r.1, r.2.1, ⟨r.2.2, mrt⟩⟩
        else some ⟨discard, [], m, { s with mrt }⟩

/-- `ip_mforward` -/
def ipMforward (c : MrtConf) (host : OutHost) (outlets : Nat → Outlet) (ifp : Nat) (m : Chain)
    (s : Mrouter) : Option Mforwarded :=
  match ipMforwardArrival m with
  | .badTunnel => some ⟨true, [], m, s⟩
  | .phyint => mforwardRoute c host outlets ifp 0 m s
  | .tunnel src m => mforwardRoute c host outlets ifp src m s

/-! ## What is forwarded where -/

/-- Tables that differ at most in the group that was asked for last. -/
structure VifTable.Same (t t' : VifTable) : Prop where
  numvifs : t'.numvifs = t.numvifs
  vif : ∀ i, ∃ group result, t'.viftable i =
    { t.viftable i with cachedGroup := group, cachedResult := result }

/-- Routers that differ at most in what they remember. -/
structure Mrouter.Same (s s' : Mrouter) : Prop where
  vifs : s.vifs.Same s'.vifs
  mrt : s'.mrt.mrt = s.mrt.mrt
  mrttable : s'.mrt.mrttable = s.mrt.mrttable

/-- The tables of a router that `ip_mforward` may go by. -/
structure Mrouter.Ready (c : MrtConf) (s : Mrouter) : Prop where
  mrt : MrtInv c s.mrt
  vifs : s.vifs.Coherent

/-- A copy goes to the interface. -/
def VifTable.goes (t : VifTable) (rt : Mrt) (ttl : UInt8) (group : UInt32) (vifi : Nat) : Bool :=
  decide ((t.viftable vifi).threshold < ttl) && vifmIsset vifi rt.children &&
    (!vifmIsset vifi rt.leaves || decide (group ∈ (t.viftable vifi).groups))

/-- The route for a source, if there is one. -/
def Mrouter.route (c : MrtConf) (s : Mrouter) (src : UInt32) : Option Mrt :=
  (s.mrt.lookup c src).join

/-- The loop over interfaces that do not change. -/
def VifTable.copies (t : VifTable) (rt : Mrt) (host : OutHost) (outlets : Nat → Outlet) :
    List Nat → Chain → List (Nat × Chain)
  | [], _ => []
  | i :: is, m =>
      if t.goes rt (m.data ipTtlAt) (m.data.u32 ipDstAt) i then
        let sent := mforwardSend host (t.viftable i) (outlets i) m
        (sent.1.map (Prod.mk i)).toList ++ t.copies rt host outlets is sent.2
      else t.copies rt host outlets is m

/-- The route by which a datagram is forwarded, if it is. -/
def Mrouter.forwards (c : MrtConf) (s : Mrouter) (src : UInt32) (parentOf : VifEntry → Bool)
    (ttl : UInt8) (group : UInt32) : Option Mrt :=
  if ttl ≤ 1 ∨ group ≤ inaddrMaxLocalGroup then none
  else (s.route c src).filter fun rt => parentOf (s.vifs.viftable rt.parent.toNat)

section

variable {c : MrtConf} {s s' s'' : Mrouter} {t t' t'' : VifTable} {rt : Mrt} {ttl : UInt8}
  {group src : UInt32} {vifi : Nat} {m : Chain} {host : OutHost} {outlets : Nat → Outlet}

theorem VifTable.Same.refl (t : VifTable) : t.Same t := ⟨rfl, fun _ => ⟨_, _, rfl⟩⟩

theorem VifTable.Same.trans (h : t.Same t') (h' : t'.Same t'') : t.Same t'' := by
  refine ⟨h'.numvifs.trans h.numvifs, fun i => ?_⟩
  obtain ⟨g, r, heq⟩ := h.vif i
  obtain ⟨g', r', heq'⟩ := h'.vif i
  exact ⟨g', r', by rw [heq', heq]⟩

/-- What is forwarded does not depend on what is remembered. -/
theorem VifTable.Same.goes (h : t.Same t') : t'.goes = t.goes := by
  funext rt ttl group i
  obtain ⟨g, r, heq⟩ := h.vif i
  rw [VifTable.goes, VifTable.goes, heq]
  rfl

theorem mforwardTest_spec (h : t.Coherent) :
    (mforwardTest rt ttl group vifi t).1 = t.goes rt ttl group vifi ∧
      t.Same (mforwardTest rt ttl group vifi t).2 ∧
      (mforwardTest rt ttl group vifi t).2.Coherent := by
  unfold mforwardTest VifTable.goes
  dsimp only
  by_cases hchild : (t.viftable vifi).threshold < ttl ∧ vifmIsset vifi rt.children = true
  · rw [if_pos hchild, hchild.2]
    by_cases hleaf : vifmIsset vifi rt.leaves = false
    · rw [if_pos hleaf, hleaf]
      exact ⟨by simp [hchild.1], .refl t, h⟩
    · rw [if_neg hleaf]
      rw [Bool.not_eq_false] at hleaf
      refine ⟨by simp [hchild.1, hleaf, (h vifi).member], ⟨rfl, fun i => ?_⟩, ?_⟩
      · show ∃ g r, Function.update t.viftable vifi _ i = _
        by_cases hi : i = vifi
        · subst hi
          rw [Function.update_self, grplstMember]
          split
          · exact ⟨_, _, rfl⟩
          · exact ⟨_, _, rfl⟩
        · rw [Function.update_of_ne hi]
          exact ⟨_, _, rfl⟩
      · exact forall_set h ((h vifi).member_step group)
  · rw [if_neg hchild]
    refine ⟨?_, .refl t, h⟩
    rw [not_and_or] at hchild
    rcases hchild with hchild | hchild
    · simp [hchild]
    · simp [hchild]

theorem VifTable.Same.send (h : t.Same t') (i : Nat) (host : OutHost) (o : Outlet) (m : Chain) :
    mforwardSend host (t'.viftable i) o m = mforwardSend host (t.viftable i) o m := by
  obtain ⟨g, r, heq⟩ := h.vif i
  rw [heq]
  rfl

theorem VifTable.Same.copies (h : t.Same t') (rt : Mrt) (host : OutHost) (outlets : Nat → Outlet)
    (is : List Nat) (m : Chain) :
    t'.copies rt host outlets is m = t.copies rt host outlets is m := by
  induction is generalizing m with
  | nil => rfl
  | cons i is ih => simp only [VifTable.copies, h.goes, h.send, ih]

theorem mforwardLoop_spec (h : t.Coherent) (vifs : List Nat) (m : Chain) :
    (mforwardLoop rt host outlets vifs m t).1 = t.copies rt host outlets vifs m ∧
      t.Same (mforwardLoop rt host outlets vifs m t).2.2 ∧
      (mforwardLoop rt host outlets vifs m t).2.2.Coherent := by
  induction vifs generalizing t m with
  | nil => exact ⟨rfl, .refl t, h⟩
  | cons i vifs ih =>
      obtain ⟨hgoes, hsame, hcoh⟩ :=
        @mforwardTest_spec t rt (m.data ipTtlAt) (m.data.u32 ipDstAt) i h
      rw [mforwardLoop, VifTable.copies]
      dsimp only
      rw [hgoes]
      split
      · obtain ⟨hrest, hsame', hcoh'⟩ := ih hcoh (mforwardSend host (t.viftable i) (outlets i) m).2
        exact ⟨by rw [hrest, hsame.copies], hsame.trans hsame', hcoh'⟩
      · obtain ⟨hrest, hsame', hcoh'⟩ := ih hcoh m
        refine ⟨?_, hsame.trans hsame', hcoh'⟩
        rw [hrest, hsame.copies]
        rfl

theorem Mrouter.Same.refl (s : Mrouter) : s.Same s := ⟨.refl _, rfl, rfl⟩

theorem Mrouter.Same.trans (h : s.Same s') (h' : s'.Same s'') : s.Same s'' :=
  ⟨h.vifs.trans h'.vifs, h'.mrt.trans h.mrt, h'.mrttable.trans h.mrttable⟩

/-- The routes are the same, so a lookup finds the same one. -/
theorem Mrouter.Same.route (h : s.Same s') (hs : s.Ready c) (hs' : s'.Ready c)
    (hnet : inNetof c src ≠ 0) : s'.route c src = s.route c src := by
  obtain ⟨o, ho, hroute⟩ := hs.mrt.lookup_eq hnet
  obtain ⟨o', ho', hroute'⟩ := hs'.mrt.lookup_eq hnet
  have hroutes : s'.mrt.routes = s.mrt.routes := by
    rw [MrtTable.routes, MrtTable.routes, h.mrt, h.mrttable]
  rw [Mrouter.route, Mrouter.route, ho, ho']
  show o' = o
  refine Option.ext fun r => ?_
  rw [hroute', hroute, hroutes]

theorem Mrouter.Same.forwards (h : s.Same s') (hs : s.Ready c) (hs' : s'.Ready c)
    (hnet : inNetof c src ≠ 0) {parentOf : VifEntry → Bool}
    (hparent : ∀ v g r, parentOf { v with cachedGroup := g, cachedResult := r } = parentOf v) :
    s'.forwards c src parentOf ttl group = s.forwards c src parentOf ttl group := by
  have hsame : ∀ i, parentOf (s'.vifs.viftable i) = parentOf (s.vifs.viftable i) := by
    intro i
    obtain ⟨g, r, heq⟩ := h.vifs.vif i
    rw [heq, hparent]
  rw [Mrouter.forwards, Mrouter.forwards, h.route hs hs' hnet]
  simp only [hsame]

theorem parentOf_cached (ifp : Nat) (tunnelSrc : UInt32) (v : VifEntry) (g : UInt32) (r : Bool) :
    VifEntry.parentOf { v with cachedGroup := g, cachedResult := r } ifp tunnelSrc =
      v.parentOf ifp tunnelSrc := rfl

/-- The copies for the children of the route, if there is one. -/
def Mrouter.copies (s : Mrouter) (host : OutHost) (outlets : Nat → Outlet) (m : Chain) :
    Option Mrt → List (Nat × Chain)
  | none => []
  | some rt => s.vifs.copies rt host outlets (List.range s.vifs.numvifs) m

theorem Mrouter.Same.copies (h : s.Same s') (host : OutHost) (outlets : Nat → Outlet) (m : Chain)
    (rt : Option Mrt) : s'.copies host outlets m rt = s.copies host outlets m rt := by
  cases rt with
  | none => rfl
  | some rt =>
      rw [Mrouter.copies, Mrouter.copies, h.vifs.numvifs]
      exact h.vifs.copies _ _ _ _ _

/-- What `ip_mforward` does with a datagram that is not tunneled any more. -/
theorem mforwardRoute_spec (h : s.Ready c) (hnet : inNetof c (m.data.u32 ipSrcAt) ≠ 0) (ifp : Nat)
    (tunnelSrc : UInt32) :
    ∃ f, mforwardRoute c host outlets ifp tunnelSrc m s = some f ∧ s.Same f.router ∧
      f.router.Ready c ∧
      f.copies = s.copies host outlets m (s.forwards c (m.data.u32 ipSrcAt)
        (fun v => v.parentOf ifp tunnelSrc) (m.data ipTtlAt) (m.data.u32 ipDstAt)) := by
  obtain ⟨p, mrt, hfind, -, hmrt, -, htable, hinv⟩ := mrtfind_spec h.mrt hnet
  have hroute : s.route c (m.data.u32 ipSrcAt) = p.map mrt.mrt := by
    rw [Mrouter.route, MrtTable.lookup, hfind]
    rfl
  have hsame : s.Same { s with mrt } := ⟨.refl _, hmrt, htable⟩
  unfold mforwardRoute Mrouter.forwards
  dsimp only
  by_cases hlocal : m.data ipTtlAt ≤ 1 ∨ m.data.u32 ipDstAt ≤ inaddrMaxLocalGroup
  · rw [if_pos hlocal, if_pos hlocal]
    exact ⟨_, rfl, .refl s, h, rfl⟩
  rw [if_neg hlocal, if_neg hlocal, hfind, hroute]
  cases p with
  | none => exact ⟨_, rfl, hsame, ⟨hinv, h.vifs⟩, rfl⟩
  | some rt =>
      dsimp only [Option.map_some]
      rw [Option.filter_some]
      split
      · obtain ⟨hcopies, hvifs, hcoh⟩ := @mforwardLoop_spec s.vifs (mrt.mrt rt) host outlets h.vifs
          (List.range s.vifs.numvifs) m
        exact ⟨_, rfl, ⟨hvifs, hmrt, htable⟩, ⟨hinv, hcoh⟩, hcopies⟩
      · exact ⟨_, rfl, hsame, ⟨hinv, h.vifs⟩, rfl⟩

end

end VxWorks.Netinet
