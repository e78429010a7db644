import VxWorks.Lib.Flood
import VxWorks.Netinet.MulticastCopy

/-!
# A network of multicast routers (ip_mroute.c)

Routers have interfaces on LANs and tunnels to one another. What `ip_mforward` puts on a LAN comes
to every router that has an interface there, the one itself if it belongs to the group; what it puts
into a tunnel comes to the router at the far end, worn by as many hops as there are routers in
between that know nothing of it.

Let every LAN and every tunnel be a child of one router at most in the routes for a source, and that
of the source of none. Then no LAN and no tunnel ever carries two copies of a datagram, whatever the
routers have remembered, whatever is lost and in whichever order they get to what has come to them,
and a copy is the datagram but for `ip_ttl` and the checksum. If nothing is lost, those carry one to
which there is a path.

How much is left of `ip_ttl` depends on the copies that a router has made before, as their header is
that of the datagram: a path has a turn of the whole loop for each of its hops, and not only the one
interface it goes by. All of this is for big-endian routers: elsewhere the interface after the first
physical one finds `ip_len` the wrong way round.

A LAN and a tunnel take a datagram in one piece, and `ip_output` has a route to the far end.
-/

namespace VxWorks.Netinet

open VxWorks.Lib

/-! ## Routers and what is between them -/

/-- A LAN, or a tunnel to a router from the address of its near end. -/
inductive Wire (ι : Type) where
  | lan (n : Nat)
  | tunnel (lcl : UInt32) (far : ι)

/-- A router at one of its physical interfaces, or at the far end of a tunnel. -/
inductive Listener (ι : Type) where
  | phyint (r : ι) (ifp : Nat)
  | tunnel (r : ι) (src : UInt32)

def Listener.router {ι : Type} : Listener ι → ι
  | .phyint r _ => r
  | .tunnel r _ => r

/-- The test of `ip_mforward` for the parent. -/
def Listener.parentOf {ι : Type} : Listener ι → VifEntry → Bool
  | .phyint _ ifp, v => !v.tunnel && v.ifp == ifp
  | .tunnel _ src, v => v.tunnel && v.rmtAddr == src

/-- The routers, the LANs of their interfaces, who hears what is put there, and the addresses they
have. Between the near end of a tunnel and the far one there are `hops` other routers, the last of
them `last`. -/
structure Mbone (ι : Type) where
  conf : ι → MrtConf
  host : ι → Nat → Router
  intr : ι → InHost
  lan : ι → Nat → Nat
  attached : Nat → List (ι × Nat)
  owner : UInt32 → Option ι
  hops : UInt32 → ι → UInt8
  last : UInt32 → ι → OutHost

namespace Mbone

variable {ι : Type}

def receivers (N : Mbone ι) : Wire ι → List (Listener ι)
  | .lan n => (N.attached n).map fun p => .phyint p.1 p.2
  | .tunnel lcl far => [.tunnel far lcl]

/-- Where what is sent through a virtual interface goes. -/
def wire (N : Mbone ι) (r : ι) (v : VifEntry) : Option (Wire ι) :=
  if v.tunnel then (N.owner v.rmtAddr).map (Wire.tunnel v.lclAddr) else some (.lan (N.lan r v.ifp))

/-- The hops that lie before a listener. -/
def worn (N : Mbone ι) : Listener ι → UInt8
  | .phyint _ _ => 0
  | .tunnel r src => N.hops src r

/-- What there is of a datagram then. -/
def aged (N : Mbone ι) : Listener ι → Chain → Chain
  | .phyint _ _, m => m
  | .tunnel r src, m =>
      if N.hops src r = 0 then m
      else (N.last src r).seal (m.withData (m.data.set8 ipTtlAt (m.data ipTtlAt - N.hops src r)))

/-- The copies on their wires. -/
def sent (N : Mbone ι) (r : ι) (vifs : VifTable) (copies : List (Nat × Chain)) :
    List (Wire ι × Chain) :=
  copies.filterMap fun p => (N.wire r (vifs.viftable p.1)).map fun w => (w, p.2)

/-- The tables of the routers, and what is on its way. -/
structure State (ι : Type) where
  router : ι → Mrouter
  spread : Spread (Wire ι) (Listener ι) Chain

/-- A router gets to a datagram that has come to it, or the datagram is lost. In a run that is
`lossless` nothing keeps a router from sending a copy, and a datagram is lost only in a tunnel that
is too long for it. -/
inductive Step [DecidableEq ι] (N : Mbone ι) (lossless : Bool) : State ι → State ι → Prop
  | take {router : ι → Mrouter} {carried : List (Wire ι × Chain)}
      {taken as bs : List (Listener ι × Chain)} {l : Listener ι} {m got : Chain} {rcvif : Nat}
      {outlets : Nat → Outlet} {f : Mforwarded}
      (hopen : lossless = true → ∀ i, (outlets i).Open)
      (hworn : N.worn l < m.data ipTtlAt)
      (hrcvif : ∀ r ifp, l = .phyint r ifp → rcvif = ifp)
      (hgot : (N.aged l m).octets <+: got.octets)
      (hf : ipintrMforward (N.conf l.router) (N.host l.router rcvif) (N.intr l.router) outlets rcvif
        got (router l.router) = some f) :
      Step N lossless ⟨router, carried, taken, as ++ (l, m) :: bs⟩
        ⟨Function.update router l.router f.router,
          carried ++ N.sent l.router (router l.router).vifs f.copies, taken ++ [(l, m)],
          as ++ bs ++ deliver N.receivers (N.sent l.router (router l.router).vifs f.copies)⟩
  | lose {router : ι → Mrouter} {carried : List (Wire ι × Chain)}
      {taken as bs : List (Listener ι × Chain)} {l : Listener ι} {m : Chain}
      (hlost : lossless = true → m.data ipTtlAt ≤ N.worn l) :
      Step N lossless ⟨router, carried, taken, as ++ (l, m) :: bs⟩
        ⟨router, carried, taken ++ [(l, m)], as ++ bs⟩

/-- A datagram is on the LAN `n`, and the routers are as `R` says. -/
def start (N : Mbone ι) (R : ι → Mrouter) (n : Nat) (m : Chain) : State ι :=
  ⟨R, .start N.receivers (.lan n) m⟩

/-! ## What is behind it -/

/-- The interface `i` of the router is a child in its route for the source, and leads to the
wire. -/
def Child (N : Mbone ι) (R : ι → Mrouter) (src : UInt32) (r : ι) (i : Nat) (w : Wire ι) : Prop :=
  ∃ rt, (R r).route (N.conf r) src = some rt ∧ i < (R r).vifs.numvifs ∧
    vifmIsset i rt.children = true ∧ N.wire r ((R r).vifs.viftable i) = some w

/-- Networks that are set up for a source on the LAN `n` and a group: no wire is a child twice, and
that LAN is none. -/
structure Sound (N : Mbone ι) (ck : Bool) (R : ι → Mrouter) (src group : UInt32) (n : Nat) :
    Prop where
  ready : ∀ r, (R r).Ready (N.conf r)
  intr : ∀ r, (N.intr r).Ready ck
  big : ∀ r, (N.intr r).bo = .big
  last : ck = true → ∀ a r, (N.last a r).cksumSnd = true
  net : ∀ r, inNetof (N.conf r) src ≠ 0
  nodup : ∀ m, (N.attached m).Nodup
  lan : ∀ m p, p ∈ N.attached m → N.lan p.1 p.2 = m
  ours : ∀ a r ifp, N.owner a = some r → (N.host r ifp).ifaIfwithaddr a ≠ none
  toGroup : ∀ r ifp, (N.host r ifp).ipRtaddr group ≠ none
  inUse : ∀ r i w, N.Child R src r i w → ((R r).vifs.viftable i).lclAddr ≠ 0
  unique : ∀ r i r' i' w, N.Child R src r i w → N.Child R src r' i' w → r = r' ∧ i = i'
  root : ∀ r i, ¬ N.Child R src r i (.lan n)

section

variable {N : Mbone ι} {R : ι → Mrouter} {m₀ : Chain} {group src : UInt32} {n : Nat}
  {l : Listener ι} {w : Wire ι} {x y ttl : UInt8} {ck lossless : Bool} {t : VifTable} {rt : Mrt}
  {outcomes : Nat → Outcome} {out : List (Wire ι × UInt8)}

end

/-! ## Copies on their way -/

/-- What is in a tunnel is a copy in its wrapping. -/
def InTunnel (N : Mbone ι) (m₀ : Chain) (lcl : UInt32) (far : ι) (m : Chain) (ttl : UInt8) : Prop :=
  ∃ vif, vif.lclAddr = lcl ∧ lcl ≠ 0 ∧ N.owner vif.rmtAddr = some far ∧ Wrapped m₀ vif ttl m

/-- What comes to a listener is a copy. -/
def Hears (N : Mbone ι) (ck : Bool) (m₀ : Chain) (l : Listener ι) (m : Chain) (ttl : UInt8) :
    Prop :=
  Datagram ck m.octets ∧
    match l with
    | .phyint _ _ => IsCopy m₀ ttl m
    | .tunnel r src => N.InTunnel m₀ src r m ttl

/-- A datagram that the routers hand on as it is, and that is not too long for a tunnel. -/
structure Left (N : Mbone ι) (ck : Bool) (m₀ : Chain) : Prop extends Grouped m₀ where
  datagram : Datagram ck m₀.octets
  short : m₀.octets.length + 12 ≤ 65535
  pass : ∀ r ifp dst, AllPass (N.host r ifp) dst m₀.data 20 (ipHlen m₀.data - 20)

section

variable {N : Mbone ι} {R : ι → Mrouter} {m₀ m got c : Chain} {group : UInt32} {n : Nat}
  {l : Listener ι} {r : ι} {w : Wire ι} {ttl : UInt8} {v : VifEntry} {ck lossless : Bool}
  {vifs vifs' : VifTable} {outlets : Nat → Outlet} {host : OutHost} {rt : Mrt}

/-- A listener of a router, as `ip_mforward` tells it. -/
theorem parentOf_eq (ifp : Nat) (src : UInt32) (hsrc : src ≠ 0) (r : ι) :
    (fun v => VifEntry.parentOf v ifp 0) = Listener.parentOf (.phyint r ifp) ∧
      (fun v => VifEntry.parentOf v ifp src) = Listener.parentOf (.tunnel r src) :=
  ⟨funext fun _ => if_pos rfl, funext fun _ => if_neg hsrc⟩

/-- What `ip_mforward` does with a copy is what it would do with the tables the router began
with. -/
theorem forwarded (hs : N.Sound ck R (m₀.data.u32 ipSrcAt) group n) (h₀ : Headed m₀)
    (h : IsCopy m₀ ttl m) {s : Mrouter} (hsame : (R l.router).Same s)
    (hready : s.Ready (N.conf l.router)) (outlets : Nat → Outlet) {ifp : Nat} {src : UInt32}
    (hparent : (fun v => VifEntry.parentOf v ifp src) = l.parentOf) :
    ∃ f, mforwardRoute (N.conf l.router) host outlets ifp src m s = some f ∧
      (R l.router).Same f.router ∧ f.router.Ready (N.conf l.router) ∧
      f.copies = (R l.router).copies host outlets m ((R l.router).forwards (N.conf l.router)
        (m₀.data.u32 ipSrcAt) l.parentOf ttl (m₀.data.u32 ipDstAt)) := by
  have hsrc : m.data.u32 ipSrcAt = m₀.data.u32 ipSrcAt := h.u32 h₀ (by decide) (by decide)
  have hdst : m.data.u32 ipDstAt = m₀.data.u32 ipDstAt := h.u32 h₀ (by decide) (by decide)
  have hnet : inNetof (N.conf l.router) (m.data.u32 ipSrcAt) ≠ 0 := by
    rw [hsrc]
    exact hs.net l.router
  obtain ⟨f, hf, hsame', hready', hcopies⟩ :=
    @mforwardRoute_spec (N.conf l.router) s m host outlets hready hnet ifp src
  refine ⟨f, hf, hsame.trans hsame', hready', ?_⟩
  rw [hcopies, hsrc, hdst, h.ttl, ← hparent, hsame.forwards (hs.ready l.router) hready
    (hs.net l.router) fun v g r => parentOf_cached ifp src v g r]
  exact hsame.copies _ _ _ _

/-- What has come through a tunnel. -/
theorem aged_wrapped {vif : Vif} {src : UInt32}
    (hlast : ck = true → (N.last src r).cksumSnd = true) (hm : Datagram ck m.octets)
    (h : Wrapped m₀ vif ttl m) :
    Datagram ck (N.aged (.tunnel r src) m).octets ∧
      Wrapped m₀ vif (ttl - N.hops src r) (N.aged (.tunnel r src) m) := by
  rw [aged]
  split
  · next hzero =>
      rw [hzero, UInt8.sub_zero]
      exact ⟨hm, h⟩
  · have hother : ∀ i, i ≠ 8 →
        m.data.set8 ipTtlAt (m.data ipTtlAt - N.hops src r) i = m.data i :=
      fun i hi => Buf.set8_of_ne _ hi
    have hfirst : 20 ≤ m.mLen := by
      obtain ⟨m', -, -, ht⟩ := h
      rw [ht.mLen]
      omega
    have hworn := h.withData (b := m.data.set8 ipTtlAt (m.data ipTtlAt - N.hops src r))
      fun i h₈ _ _ => hother i h₈
    rw [Buf.set8_same, h.ttl_eq] at hworn
    rw [h.ttl_eq] at hother ⊢
    exact ⟨datagram_seal ((hm.whole hfirst).withData (hother 0 (by omega)) (hother 2 (by omega))
      (hother 3 (by omega))) hlast, hworn.seal _⟩

/-- What comes to a router is a copy by the time it is looked at, and is forwarded as the relay
says. -/
theorem arrival (hs : N.Sound ck R (m₀.data.u32 ipSrcAt) (m₀.data.u32 ipDstAt) n)
    (hm : N.Left ck m₀) (h : N.Hears ck m₀ l m ttl)
    (hgot : (N.aged l m).octets <+: got.octets) {rcvif : Nat}
    (hrcvif : ∀ r ifp, l = .phyint r ifp → rcvif = ifp) {s : Mrouter}
    (hsame : (R l.router).Same s) (hready : s.Ready (N.conf l.router)) (outlets : Nat → Outlet) :
    ∃ m' f, IsCopy m₀ (ttl - N.worn l) m' ∧
      ipintrMforward (N.conf l.router) (N.host l.router rcvif) (N.intr l.router) outlets rcvif got
        s = some f ∧
      (R l.router).Same f.router ∧ f.router.Ready (N.conf l.router) ∧
      f.copies = (R l.router).copies (N.intr l.router).toOutHost outlets m'
        ((R l.router).forwards (N.conf l.router) (m₀.data.u32 ipSrcAt) l.parentOf
          (ttl - N.worn l) (m₀.data.u32 ipDstAt)) := by
  obtain ⟨hdatagram, h⟩ := h
  cases l with
  | phyint r ifp =>
      obtain rfl := hrcvif r ifp rfl
      have hout : ∃ m₁, IsCopy m₀ ttl m₁ ∧
          ipintrMforward (N.conf r) (N.host r rcvif) (N.intr r) outlets rcvif got s =
            mforwardRoute (N.conf r) (N.intr r).toOutHost outlets rcvif 0 m₁ s :=
        IsCopy.ipintr hm.toGrouped h hdatagram (hs.intr r) hgot (hm.pass r rcvif _)
      obtain ⟨m₁, hcopy, hintr⟩ := hout
      obtain ⟨f, hf, hrest⟩ := forwarded hs hm.headed hcopy hsame hready outlets
        (parentOf_eq rcvif 1 (by decide) r).1
      have hzero : ttl - N.worn (.phyint r rcvif) = ttl := UInt8.sub_zero ttl
      rw [hzero]
      exact ⟨m₁, f, hcopy, hintr.trans hf, hrest⟩
  | tunnel r src =>
      obtain ⟨vif, rfl, hlcl, howner, hwrapped⟩ := h
      obtain ⟨hdatagram', hwrapped'⟩ :=
        aged_wrapped (fun hck => hs.last hck vif.lclAddr r) hdatagram hwrapped
      have hout : ∃ m₁, IsCopy m₀ (ttl - N.hops vif.lclAddr r) m₁ ∧
          ipintrMforward (N.conf r) (N.host r rcvif) (N.intr r) outlets rcvif got s =
            mforwardRoute (N.conf r) (N.intr r).toOutHost outlets rcvif vif.lclAddr m₁ s :=
        hwrapped'.ipintr hm.toGrouped hdatagram' (hs.intr r) hgot hlcl (hs.ours _ r rcvif howner)
          (hs.toGroup r rcvif) (hm.pass r rcvif _)
      obtain ⟨m₁, hcopy, hintr⟩ := hout
      obtain ⟨f, hf, hrest⟩ := forwarded hs hm.headed hcopy hsame hready outlets
        (parentOf_eq rcvif vif.lclAddr hlcl r).2
      exact ⟨m₁, f, hcopy, hintr.trans hf, hrest⟩

end

/-! ## Two routers -/

end Mbone

end VxWorks.Netinet
