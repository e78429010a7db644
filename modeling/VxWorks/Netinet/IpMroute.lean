import Mathlib.Algebra.Ring.Nat
import Mathlib.Data.Set.Basic
import VxWorks.Lib.Chains
import VxWorks.Lib.Run

/-!
# The multicast route table (ip_mroute.c)

A route says from which virtual interface the datagrams of an origin come and to
which ones they go on; its origin is a prefix, an address with a mask. Routes
hang in hash chains, filed under a hash of the network number of their origin,
and the last route that was found is remembered in front of the table.

Three things in this design rest on the prefixes being kept apart. A lookup
searches one chain only, the one of the address it is asked for, while the
remembered route is tried for every address. It takes the first route of the
chain that covers the address, and the order of the chain is that of the
insertions. And a route is added by looking its origin up first: what covers
that address is taken for the same route and overwritten. When every route that
is added lies apart from the others and inside the bucket of its origin, none of
this can be seen, and the table is the set of routes it holds.

Addresses are in network order, the host order of the big-endian targets. The
header with `MRTHASHSIZ` and `MRTHASHMOD` belongs to another release, so the
reduction of a network number to a bucket is a parameter. The loop of `nethash`
has no end on a network number that is zero; a call that does not return has no
state after it, and so calls are over `Option`.
-/

namespace VxWorks.Netinet

open VxWorks.Lib

def inClassa (i : UInt32) : Bool := i &&& 0x80000000 == 0

def inClassb (i : UInt32) : Bool := i &&& 0xc0000000 == 0x80000000

def inClassc (i : UInt32) : Bool := i &&& 0xe0000000 == 0xc0000000

def inClassd (i : UInt32) : Bool := i &&& 0xf0000000 == 0xe0000000

/-- What `in_netof` reads of an interface address. -/
structure IaNet where
  iaNet : UInt32
  iaSubnetmask : UInt32
deriving DecidableEq, Repr

structure MrtConf where
  inIfaddr : List IaNet
  mrthashmod : UInt32 → Nat

/-- `in_netof`: the number of a subnet where the network has an interface here,
and none for the addresses above class D. -/
def inNetof (c : MrtConf) (i : UInt32) : UInt32 :=
  let subnet (net : UInt32) : UInt32 :=
    match c.inIfaddr.find? (fun ia => net == ia.iaNet) with
    | some ia => i &&& ia.iaSubnetmask
    | none => net
  if inClassa i then subnet (i &&& 0xff000000)
  else if inClassb i then subnet (i &&& 0xffff0000)
  else if inClassc i then subnet (i &&& 0xffffff00)
  else if inClassd i then subnet (i &&& 0xf0000000)
  else 0

/-- The loop of `nethash`, which shifts zero octets out. A word has four; when
all of them are zero the shifting goes on for ever. -/
def nethashLoop : Nat → UInt32 → Option UInt32
  | 0, _ => none
  | k + 1, n => if n &&& 0xff = 0 then nethashLoop k (n >>> 8) else some n

def nethash (c : MrtConf) (i : UInt32) : Option Nat :=
  (nethashLoop 4 (inNetof c i)).map c.mrthashmod

/-- The fields of `struct mrt`, and those of the request `struct mrtctl`. -/
structure Mrt where
  origin : UInt32
  originmask : UInt32
  parent : UInt16
  children : UInt32
  leaves : UInt32
deriving DecidableEq, Repr

/-- The test by which a route is taken for an address. -/
def Mrt.covers (rt : Mrt) (i : UInt32) : Bool := i &&& rt.originmask == rt.origin

/-- A route is a block of memory: `mrt` is the memory and `live` says which of it
is allocated. -/
structure MrtTable where
  mrt : Nat → Mrt
  live : Nat → Bool
  mrttable : Nat → List Nat
  cachedMrt : Option Nat
  cachedOrigin : UInt32
  cachedOriginmask : UInt32

inductive MrtErrno where
  | enobufs | esrch
deriving DecidableEq, Repr

/-- `mrtfind`, with the block it returns. -/
def mrtfind (c : MrtConf) (origin : UInt32) (s : MrtTable) : Option (Option Nat × MrtTable) :=
  if s.cachedMrt ≠ none ∧ origin &&& s.cachedOriginmask = s.cachedOrigin then
    some (s.cachedMrt, s)
  else
    match nethash c origin with
    | none => none
    | some hash =>
        match (s.mrttable hash).find? (fun rt => (s.mrt rt).covers origin) with
        | some rt =>
            some (some rt,
              { s with
                cachedMrt := some rt
                cachedOrigin := (s.mrt rt).origin
                cachedOriginmask := (s.mrt rt).originmask })
        | none => some (none, s)

/-- `MALLOC`: the block the allocator comes up with, if any; it is never one that
is in use. -/
def MrtTable.malloc (s : MrtTable) (block : Option Nat) : Option Nat :=
  block.filter (fun i => !s.live i)

/-- The update of a route that is there. -/
def Mrt.update (rt mrtcp : Mrt) : Mrt :=
  { rt with parent := mrtcp.parent, children := mrtcp.children, leaves := mrtcp.leaves }

/-- `add_mrt`, with the error it returns. -/
def addMrt (c : MrtConf) (mrtcp : Mrt) (block : Option Nat) (s : MrtTable) :
    Option (Option MrtErrno × MrtTable) :=
  match mrtfind c mrtcp.origin s with
  | none => none
  | some (some rt, s) =>
      some (none, { s with mrt := Function.update s.mrt rt ((s.mrt rt).update mrtcp) })
  | some (none, s) =>
      match s.malloc block with
      | none => some (some .enobufs, s)
      | some rt =>
          match nethash c mrtcp.origin with
          | none => none
          | some hash =>
              some (none,
                { s with
                  mrt := Function.update s.mrt rt mrtcp
                  live := Function.update s.live rt true
                  mrttable := chainInsert s.mrttable hash rt })

/-- `del_mrt`, with the error it returns. -/
def delMrt (c : MrtConf) (origin : UInt32) (s : MrtTable) :
    Option (Option MrtErrno × MrtTable) :=
  match nethash c origin with
  | none => none
  | some hash =>
      match (s.mrttable hash).find? (fun rt => origin == (s.mrt rt).origin) with
      | none => some (some .esrch, s)
      | some rt =>
          some (none,
            { s with
              live := Function.update s.live rt false
              mrttable := Function.update s.mrttable hash ((s.mrttable hash).erase rt)
              cachedMrt := if s.cachedMrt = some rt then none else s.cachedMrt })

inductive MrtOp where
  | find (origin : UInt32)
  | add (mrtcp : Mrt) (block : Option Nat)
  | del (origin : UInt32)

def mrtCall (c : MrtConf) (s : MrtTable) : MrtOp → Option MrtTable
  | .find origin => (mrtfind c origin s).map Prod.snd
  | .add mrtcp block => (addMrt c mrtcp block s).map Prod.snd
  | .del origin => (delMrt c origin s).map Prod.snd

def mrtStep (c : MrtConf) (s : Option MrtTable) (op : MrtOp) : Option MrtTable :=
  s.bind fun s => mrtCall c s op

/-- The table as the kernel starts. -/
def mrtStart : MrtTable where
  mrt := fun _ => ⟨0, 0, 0, 0, 0⟩
  live := fun _ => false
  mrttable := fun _ => []
  cachedMrt := none
  cachedOrigin := 0
  cachedOriginmask := 0

/-! ## What the table is for -/

/-- The set of installed routes. -/
def MrtTable.routes (s : MrtTable) : Set Mrt :=
  { r | ∃ b, ∃ i ∈ s.mrttable b, s.mrt i = r }

/-- The route a lookup answers with. -/
def MrtTable.lookup (c : MrtConf) (s : MrtTable) (origin : UInt32) : Option (Option Mrt) :=
  (mrtfind c origin s).map fun p => p.1.map p.2.mrt

/-- The tables the calls allowed by `G` lead to. -/
def MrtReaches (c : MrtConf) (G : MrtTable → MrtOp → Prop) (ops : List MrtOp) (s : MrtTable) :
    Prop :=
  Guarded (mrtStep c) (fun t op => ∀ u, t = some u → G u op) (some mrtStart) ops ∧
    run (mrtStep c) (some mrtStart) ops = some s

/-- A lookup is a function of the set of routes, however the table came to hold
them and whatever was looked up before; and it returns. -/
def FindsByRoutes (c : MrtConf) (G : MrtTable → MrtOp → Prop) : Prop :=
  ∀ ops ops' s s', MrtReaches c G ops s → MrtReaches c G ops' s' → s.routes = s'.routes →
    ∀ origin, G s (.find origin) → G s' (.find origin) →
      s.lookup c origin = s'.lookup c origin ∧ s.lookup c origin ≠ none

/-- A call of `add_mrt` returns, and when it returns 0 the route is there as it was
asked for and the routes with another origin or another mask are as they were. -/
def AddsRoute (c : MrtConf) (G : MrtTable → MrtOp → Prop) : Prop :=
  ∀ ops s mrtcp block, MrtReaches c G ops s → G s (.add mrtcp block) →
    ∃ error s', addMrt c mrtcp block s = some (error, s') ∧
      (error = none → mrtcp ∈ s'.routes ∧
        ∀ r, r.origin ≠ mrtcp.origin ∨ r.originmask ≠ mrtcp.originmask →
          (r ∈ s.routes ↔ r ∈ s'.routes))

/-! ## The hash -/

theorem toNat_low_octet (n : UInt32) : n &&& 0xff = 0 ↔ n.toNat % 256 = 0 := by
  rw [← UInt32.toNat_inj, UInt32.toNat_and]
  exact iff_of_eq (congrArg (· = 0) (Nat.and_two_pow_sub_one_eq_mod n.toNat 8))

theorem toNat_shift_octet (n : UInt32) : (n >>> 8).toNat = n.toNat / 256 := by
  rw [UInt32.toNat_shiftRight, Nat.shiftRight_eq_div_pow]
  rfl

/-- The shifting ends unless there is nothing but zeros to shift. -/
theorem nethashLoop_eq_none {k : Nat} {n : UInt32} (h : n.toNat < 256 ^ k) :
    nethashLoop k n = none ↔ n = 0 := by
  induction k generalizing n with
  | zero =>
      have hn : n = 0 := UInt32.toNat_inj.mp (by simpa using h)
      simp [nethashLoop, hn]
  | succ k ih =>
      simp only [nethashLoop, toNat_low_octet]
      split
      · next hlow =>
          have hlt : (n >>> 8).toNat < 256 ^ k := by
            rw [toNat_shift_octet]
            omega
          rw [ih hlt, ← UInt32.toNat_inj, ← UInt32.toNat_inj, toNat_shift_octet]
          simp only [UInt32.toNat_zero]
          omega
      · next hlow =>
          simp only [reduceCtorEq, false_iff]
          rintro rfl
          exact hlow rfl

theorem nethash_eq_none {c : MrtConf} {i : UInt32} : nethash c i = none ↔ inNetof c i = 0 := by
  rw [nethash, Option.map_eq_none_iff]
  exact nethashLoop_eq_none (UInt32.toNat_lt _)

/-! ## Prefixes kept apart -/

/-- Two routes for the same prefix. -/
def Mrt.Same (r r' : Mrt) : Prop := r.origin = r'.origin ∧ r.originmask = r'.originmask

/-- The calls that keep the prefixes apart: no address has network number zero, and
a route that is added for a new prefix covers addresses of one bucket only, none
of them covered by another route, and neither is its origin. -/
def KeepsApart (c : MrtConf) (s : MrtTable) : MrtOp → Prop
  | .find origin => inNetof c origin ≠ 0
  | .add mrtcp _ =>
      inNetof c mrtcp.origin ≠ 0 ∧
      (∀ i, mrtcp.covers i = true → nethash c i = nethash c mrtcp.origin) ∧
      ∀ r ∈ s.routes, ¬ r.Same mrtcp →
        r.covers mrtcp.origin = false ∧ ∀ i, r.covers i = true → mrtcp.covers i = false
  | .del origin => inNetof c origin ≠ 0

/-- The bucket a route belongs in. -/
def MrtTable.bucket (c : MrtConf) (s : MrtTable) (i : Nat) : Nat :=
  (nethash c (s.mrt i).origin).getD 0

structure MrtInv (c : MrtConf) (s : MrtTable) : Prop where
  filed : Filed s.mrttable (s.bucket c) (fun i => s.live i = true)
  hashed : ∀ i, s.live i = true → nethash c (s.mrt i).origin ≠ none
  aligned : ∀ i a, s.live i = true → (s.mrt i).covers a = true →
    nethash c a = nethash c (s.mrt i).origin
  apart : ∀ i j a, s.live i = true → s.live j = true → (s.mrt i).covers a = true →
    (s.mrt j).covers a = true → i = j
  cached : ∀ i, s.cachedMrt = some i → s.live i = true ∧
    s.cachedOrigin = (s.mrt i).origin ∧ s.cachedOriginmask = (s.mrt i).originmask

theorem MrtInv.start (c : MrtConf) : MrtInv c mrtStart where
  filed := (filed_empty fun _ => 0).congr (fun _ => by simp [mrtStart]) (fun _ h => h.elim)
  hashed := by simp [mrtStart]
  aligned := by simp [mrtStart]
  apart := by simp [mrtStart]
  cached := by simp [mrtStart]

section

variable {c : MrtConf} {s s' : MrtTable}

theorem MrtInv.mem_routes (h : MrtInv c s) {r : Mrt} :
    r ∈ s.routes ↔ ∃ i, s.live i = true ∧ s.mrt i = r := by
  constructor
  · intro ⟨b, i, hi, hr⟩
    exact ⟨i, ((h.filed.mem b i).mp hi).1, hr⟩
  · intro ⟨i, hi, hr⟩
    exact ⟨_, i, (h.filed.mem _ i).mpr ⟨hi, rfl⟩, hr⟩

/-- A route that covers an address hangs in the chain of that address. -/
theorem MrtInv.mem_chain (h : MrtInv c s) {a : UInt32} {b i : Nat} (hb : nethash c a = some b)
    (hi : s.live i = true) (hcov : (s.mrt i).covers a = true) : i ∈ s.mrttable b := by
  refine (h.filed.mem b i).mpr ⟨hi, ?_⟩
  rw [MrtTable.bucket, ← h.aligned i a hi hcov, hb]
  rfl

/-- What a lookup does: it answers with the one route that covers the address, and
changes nothing but the route that is remembered. -/
theorem mrtfind_spec (h : MrtInv c s) {a : UInt32} (ha : inNetof c a ≠ 0) :
    ∃ p s', mrtfind c a s = some (p, s') ∧
      (∀ i, p = some i ↔ s.live i = true ∧ (s.mrt i).covers a = true) ∧
      s'.mrt = s.mrt ∧ s'.live = s.live ∧ s'.mrttable = s.mrttable ∧ MrtInv c s' := by
  obtain ⟨b, hb⟩ : ∃ b, nethash c a = some b :=
    Option.ne_none_iff_exists'.mp (fun hn => ha (nethash_eq_none.mp hn))
  unfold mrtfind
  split
  · next hhit =>
      obtain ⟨j, hj⟩ := Option.ne_none_iff_exists'.mp hhit.1
      obtain ⟨hlive, ho, hm⟩ := h.cached j hj
      have hcov : (s.mrt j).covers a = true := by
        simpa [Mrt.covers, ← ho, ← hm] using hhit.2
      refine ⟨_, s, rfl, ?_, rfl, rfl, rfl, h⟩
      intro i
      rw [hj]
      constructor
      · intro hi
        cases hi
        exact ⟨hlive, hcov⟩
      · intro hi
        exact congrArg some (h.apart j i a hlive hi.1 hcov hi.2)
  · rw [hb]
    dsimp only
    split
    · next j hj =>
        have hcov : (s.mrt j).covers a = true :=
          List.find?_some (p := fun rt => (s.mrt rt).covers a) hj
        have hlive : s.live j = true :=
          ((h.filed.mem b j).mp (List.mem_of_find?_eq_some hj)).1
        refine ⟨_, _, rfl, ?_, rfl, rfl, rfl, ?_⟩
        · intro i
          constructor
          · intro hi
            cases hi
            exact ⟨hlive, hcov⟩
          · intro hi
            exact congrArg some (h.apart j i a hlive hi.1 hcov hi.2)
        · refine ⟨h.filed, h.hashed, h.aligned, h.apart, ?_⟩
          intro i hi
          cases hi
          exact ⟨hlive, rfl, rfl⟩
    · next hnone =>
        refine ⟨_, s, rfl, ?_, rfl, rfl, rfl, h⟩
        intro i
        simp only [reduceCtorEq, false_iff]
        intro hi
        exact List.find?_eq_none.mp hnone i (h.mem_chain hb hi.1 hi.2) hi.2

/-- An answer of a lookup as the route it is. -/
theorem MrtInv.lookup_eq (h : MrtInv c s) {a : UInt32} (ha : inNetof c a ≠ 0) :
    ∃ o, s.lookup c a = some o ∧ ∀ r, o = some r ↔ r ∈ s.routes ∧ r.covers a = true := by
  obtain ⟨p, s', heq, hp, hmrt, -⟩ := mrtfind_spec h ha
  refine ⟨p.map s.mrt, by rw [MrtTable.lookup, heq, Option.map_some, hmrt], fun r => ?_⟩
  rw [Option.map_eq_some_iff, h.mem_routes]
  constructor
  · intro ⟨i, hi, hr⟩
    subst hr
    obtain ⟨hlive, hcov⟩ := (hp i).mp hi
    exact ⟨⟨i, hlive, rfl⟩, hcov⟩
  · intro ⟨⟨i, hlive, hr⟩, hcov⟩
    subst hr
    exact ⟨i, (hp i).mpr ⟨hlive, hcov⟩, rfl⟩

/-! ### Adding a route -/

/-- An update in place: the origin and the mask stay, so nothing that is said of
them changes. -/
theorem MrtInv.update (h : MrtInv c s) (i : Nat) (mrtcp : Mrt) :
    MrtInv c { s with mrt := Function.update s.mrt i ((s.mrt i).update mrtcp) } := by
  have horigin : ∀ j, (Function.update s.mrt i ((s.mrt i).update mrtcp) j).origin =
      (s.mrt j).origin := by
    intro j
    rcases eq_or_ne j i with rfl | hj
    · rw [Function.update_self]; rfl
    · rw [Function.update_of_ne hj]
  have hmask : ∀ j, (Function.update s.mrt i ((s.mrt i).update mrtcp) j).originmask =
      (s.mrt j).originmask := by
    intro j
    rcases eq_or_ne j i with rfl | hj
    · rw [Function.update_self]; rfl
    · rw [Function.update_of_ne hj]
  constructor
  · refine h.filed.congr (fun _ => Iff.rfl) ?_
    intro j _
    simp only [MrtTable.bucket, horigin]
  · simpa only [horigin] using h.hashed
  · simpa only [horigin, hmask, Mrt.covers] using h.aligned
  · simpa only [horigin, hmask, Mrt.covers] using h.apart
  · simpa only [horigin, hmask] using h.cached

/-- The table with a new route in it. -/
def MrtTable.link (s : MrtTable) (i : Nat) (mrtcp : Mrt) (hash : Nat) : MrtTable :=
  { s with
    mrt := Function.update s.mrt i mrtcp
    live := Function.update s.live i true
    mrttable := chainInsert s.mrttable hash i }

theorem MrtInv.link (h : MrtInv c s) {i hash : Nat} {mrtcp : Mrt} {block : Option Nat}
    (hi : s.live i = false) (hhash : nethash c mrtcp.origin = some hash)
    (hkeep : KeepsApart c s (.add mrtcp block))
    (hnew : ∀ j, s.live j = true → (s.mrt j).covers mrtcp.origin = false) :
    MrtInv c (s.link i mrtcp hash) := by
  obtain ⟨-, hal, hap⟩ := hkeep
  have hlive : ∀ j, (s.link i mrtcp hash).live j = true ↔ j = i ∨ s.live j = true := by
    intro j
    rcases eq_or_ne j i with rfl | hj <;> simp [MrtTable.link, *]
  have hself : (s.link i mrtcp hash).mrt i = mrtcp := Function.update_self ..
  have hold : ∀ j, s.live j = true → (s.link i mrtcp hash).mrt j = s.mrt j := by
    intro j hj
    refine Function.update_of_ne ?_ ..
    rintro rfl
    exact absurd hj (by simp [hi])
  -- a route for the same prefix that covers nothing does no harm
  have hcov : ∀ j a, s.live j = true → (s.mrt j).covers a = true → mrtcp.covers a = false := by
    intro j a hj hja
    by_cases hsame : (s.mrt j).Same mrtcp
    · by_contra hcon
      have hcon : mrtcp.covers a = true := by simpa using hcon
      have hor : mrtcp.covers mrtcp.origin = true := by
        simp only [Mrt.covers, beq_iff_eq] at hcon ⊢
        rw [← hcon, UInt32.and_assoc, UInt32.and_self]
      have hsame' : (s.mrt j).covers mrtcp.origin = mrtcp.covers mrtcp.origin := by
        simp only [Mrt.covers, hsame.1, hsame.2]
      rw [hnew j hj, hor] at hsame'
      exact absurd hsame' (by simp)
    · exact (hap _ (h.mem_routes.mpr ⟨j, hj, rfl⟩) hsame).2 a hja
  constructor
  · have hkey : (s.link i mrtcp hash).bucket c i = hash := by
      rw [MrtTable.bucket, hself, hhash]; rfl
    have hins : Filed (chainInsert s.mrttable ((s.link i mrtcp hash).bucket c i) i)
        ((s.link i mrtcp hash).bucket c) (fun j => (s.link i mrtcp hash).live j = true) := by
      refine h.filed.insert (by simp [hi]) ?_ hlive
      intro j hj
      simp only [MrtTable.bucket, MrtTable.link, Function.update_of_ne hj]
    rw [hkey] at hins
    exact hins
  · intro j hj
    rcases (hlive j).mp hj with rfl | hj
    · rw [hself, hhash]; simp
    · rw [hold j hj]; exact h.hashed j hj
  · intro j a hj hja
    rcases (hlive j).mp hj with rfl | hj
    · rw [hself] at hja ⊢; exact hal a hja
    · rw [hold j hj] at hja ⊢; exact h.aligned j a hj hja
  · intro j k a hj hk hja hka
    rcases (hlive j).mp hj with rfl | hjs <;> rcases (hlive k).mp hk with rfl | hks
    · rfl
    · rw [hself] at hja
      rw [hold k hks] at hka
      exact absurd hja (by simp [hcov k a hks hka])
    · rw [hself] at hka
      rw [hold j hjs] at hja
      exact absurd hka (by simp [hcov j a hjs hja])
    · rw [hold j hjs] at hja
      rw [hold k hks] at hka
      exact h.apart j k a hjs hks hja hka
  · intro j hj
    obtain ⟨hl, ho, hm⟩ := h.cached j hj
    rw [hold j hl]
    exact ⟨(hlive j).mpr (.inr hl), ho, hm⟩

/-- A request found to be for a route that is there: by the prefixes being apart it
is there under the same prefix, and no other route is. -/
theorem MrtInv.update_routes (h : MrtInv c s) {i : Nat} {mrtcp : Mrt} (hi : s.live i = true)
    (hsame : (s.mrt i).Same mrtcp) :
    let s' := { s with mrt := Function.update s.mrt i ((s.mrt i).update mrtcp) }
    mrtcp ∈ s'.routes ∧ ∀ r, ¬ r.Same mrtcp → (r ∈ s.routes ↔ r ∈ s'.routes) := by
  intro s'
  have hset : s'.mrt i = mrtcp := by
    show Function.update s.mrt i ((s.mrt i).update mrtcp) i = mrtcp
    rw [Function.update_self, Mrt.update, hsame.1, hsame.2]
  refine ⟨(h.update i mrtcp).mem_routes.mpr ⟨i, hi, hset⟩, ?_⟩
  intro r hr
  rw [h.mem_routes, (h.update i mrtcp).mem_routes]
  constructor
  · intro ⟨j, hj, hjr⟩
    have hne : j ≠ i := by
      rintro rfl
      exact hr (hjr ▸ hsame)
    exact ⟨j, hj, (Function.update_of_ne hne ..).trans hjr⟩
  · intro ⟨j, hj, hjr⟩
    have hne : j ≠ i := by
      rintro rfl
      obtain rfl : r = mrtcp := hjr.symm.trans hset
      exact hr ⟨rfl, rfl⟩
    exact ⟨j, hj, (Function.update_of_ne hne ..).symm.trans hjr⟩

theorem MrtTable.link_routes (h : MrtInv c s) {i hash : Nat} {mrtcp : Mrt} (hi : s.live i = false)
    (h' : MrtInv c (s.link i mrtcp hash)) {r : Mrt} :
    r ∈ (s.link i mrtcp hash).routes ↔ r = mrtcp ∨ r ∈ s.routes := by
  rw [h.mem_routes, h'.mem_routes]
  constructor
  · intro ⟨j, hj, hjr⟩
    rcases eq_or_ne j i with rfl | hne
    · exact .inl (hjr.symm.trans (Function.update_self ..))
    · refine .inr ⟨j, ?_, (Function.update_of_ne hne ..).symm.trans hjr⟩
      exact (Function.update_of_ne hne ..).symm.trans hj
  · rintro (rfl | ⟨j, hj, hjr⟩)
    · exact ⟨i, Function.update_self .., Function.update_self ..⟩
    · have hne : j ≠ i := by
        rintro rfl
        exact absurd hj (by simp [hi])
      exact ⟨j, (Function.update_of_ne hne ..).trans hj, (Function.update_of_ne hne ..).trans hjr⟩

theorem addMrt_spec (h : MrtInv c s) {mrtcp : Mrt} {block : Option Nat}
    (hkeep : KeepsApart c s (.add mrtcp block)) :
    ∃ error s', addMrt c mrtcp block s = some (error, s') ∧ MrtInv c s' ∧
      (error = none → mrtcp ∈ s'.routes ∧
        ∀ r : Mrt, ¬ r.Same mrtcp → (r ∈ s.routes ↔ r ∈ s'.routes)) := by
  obtain ⟨p, t, heq, hp, hmrt, hlive, htab, ht⟩ := mrtfind_spec h hkeep.1
  have hroutes : t.routes = s.routes := by simp only [MrtTable.routes, hmrt, htab]
  have hcover : ∀ i, p = some i ↔ t.live i = true ∧ (t.mrt i).covers mrtcp.origin = true := by
    rw [hmrt, hlive]; exact hp
  have hkeep' : KeepsApart c t (.add mrtcp block) := by
    refine ⟨hkeep.1, hkeep.2.1, ?_⟩
    rw [hroutes]
    exact hkeep.2.2
  rw [← hroutes]
  simp only [addMrt, heq]
  cases p with
  | some i =>
      obtain ⟨hi, hcov⟩ := (hcover i).mp rfl
      have hsame : (t.mrt i).Same mrtcp := by
        by_contra hne
        have := (hkeep'.2.2 _ (ht.mem_routes.mpr ⟨i, hi, rfl⟩) hne).1
        exact absurd hcov (by simp [this])
      exact ⟨_, _, rfl, ht.update i mrtcp, fun _ => ht.update_routes hi hsame⟩
  | none =>
      have hnew : ∀ j, t.live j = true → (t.mrt j).covers mrtcp.origin = false := by
        intro j hj
        by_contra hcov
        exact absurd ((hcover j).mpr ⟨hj, by simpa using hcov⟩) (by simp)
      dsimp only
      cases hblock : t.malloc block with
      | none => exact ⟨_, _, rfl, ht, by simp⟩
      | some i =>
          have hi : t.live i = false := by
            simpa using (Option.filter_eq_some_iff.mp hblock).2
          obtain ⟨hash, hhash⟩ : ∃ hash, nethash c mrtcp.origin = some hash :=
            Option.ne_none_iff_exists'.mp (fun hn => hkeep.1 (nethash_eq_none.mp hn))
          have hlink := ht.link hi hhash hkeep' hnew
          rw [hhash]
          refine ⟨_, _, rfl, hlink, ?_⟩
          intro _
          have hmem := fun r => MrtTable.link_routes (r := r) ht hi hlink
          refine ⟨(hmem mrtcp).mpr (.inl rfl), ?_⟩
          intro r hr
          refine Iff.trans ?_ (hmem r).symm
          refine (or_iff_right ?_).symm
          rintro rfl
          exact hr ⟨rfl, rfl⟩

/-! ### Deleting a route -/

theorem delMrt_spec (h : MrtInv c s) {origin : UInt32} (hkeep : KeepsApart c s (.del origin)) :
    ∃ error s', delMrt c origin s = some (error, s') ∧ MrtInv c s' := by
  obtain ⟨hash, hhash⟩ : ∃ hash, nethash c origin = some hash :=
    Option.ne_none_iff_exists'.mp (fun hn => hkeep (nethash_eq_none.mp hn))
  simp only [delMrt, hhash]
  split
  · exact ⟨_, _, rfl, h⟩
  · next i hi =>
      have hmem : i ∈ s.mrttable hash := List.mem_of_find?_eq_some hi
      have hchain : Function.update s.mrttable hash ((s.mrttable hash).erase i) =
          chainRemove s.mrttable i := by
        funext b
        rw [chainRemove]
        rcases eq_or_ne b hash with rfl | hb
        · rw [Function.update_self]
        · rw [Function.update_of_ne hb, List.erase_of_not_mem]
          intro hib
          refine hb ?_
          rw [← ((h.filed.mem b i).mp hib).2, ← ((h.filed.mem hash i).mp hmem).2]
      have hlive : ∀ j, Function.update s.live i false j = true ↔ s.live j = true ∧ j ≠ i := by
        intro j
        rcases eq_or_ne j i with rfl | hj <;> simp [*]
      refine ⟨_, _, rfl, ?_, ?_, ?_, ?_, ?_⟩
      · rw [hchain]
        exact (h.filed.remove i).congr hlive (fun _ _ => rfl)
      · exact fun j hj => h.hashed j ((hlive j).mp hj).1
      · exact fun j a hj => h.aligned j a ((hlive j).mp hj).1
      · exact fun j k a hj hk => h.apart j k a ((hlive j).mp hj).1 ((hlive k).mp hk).1
      · intro j hj
        dsimp only at hj
        split at hj
        · cases hj
        · next hne =>
            obtain ⟨hl, ho⟩ := h.cached j hj
            refine ⟨(hlive j).mpr ⟨hl, ?_⟩, ho⟩
            rintro rfl
            exact hne hj

/-! ### Runs -/

theorem mrtCall_inv (h : MrtInv c s) {op : MrtOp} (hkeep : KeepsApart c s op) :
    ∃ s', mrtCall c s op = some s' ∧ MrtInv c s' := by
  cases op with
  | find origin =>
      obtain ⟨p, s', heq, -, -, -, -, hinv⟩ := mrtfind_spec h hkeep
      exact ⟨s', by rw [mrtCall, heq]; rfl, hinv⟩
  | add mrtcp block =>
      obtain ⟨error, s', heq, hinv, -⟩ := addMrt_spec h hkeep
      exact ⟨s', by rw [mrtCall, heq]; rfl, hinv⟩
  | del origin =>
      obtain ⟨error, s', heq, hinv⟩ := delMrt_spec h hkeep
      exact ⟨s', by rw [mrtCall, heq]; rfl, hinv⟩

theorem MrtReaches.inv {ops : List MrtOp} (h : MrtReaches c (KeepsApart c) ops s) :
    MrtInv c s := by
  obtain ⟨hg, hrun⟩ := h
  have hall := always_of_guarded (fun t => ∀ u, t = some u → MrtInv c u)
    (fun u hu => by cases hu; exact MrtInv.start c) (fun t op ht hop u hu => ?_) hg
  · exact hall ops (List.prefix_refl _) s hrun
  · cases t with
    | none => cases hu
    | some t =>
        obtain ⟨s', heq, hinv⟩ := mrtCall_inv (ht t rfl) (hop t rfl)
        obtain rfl : s' = u := Option.some.inj (heq.symm.trans hu)
        exact hinv

end

/-- As long as the prefixes are kept apart the table is a set of routes: lookups
depend on nothing else, and a route is added as asked for. -/
theorem mrttable_is_a_set (c : MrtConf) :
    FindsByRoutes c (KeepsApart c) ∧ AddsRoute c (KeepsApart c) := by
  constructor
  · intro ops ops' s s' hs hs' hroutes a ha ha'
    obtain ⟨o, ho, hmem⟩ := hs.inv.lookup_eq ha
    obtain ⟨o', ho', hmem'⟩ := hs'.inv.lookup_eq ha'
    have heq : o = o' := by
      refine Option.ext ?_
      intro r
      rw [hmem, hmem', hroutes]
    exact ⟨by rw [ho, ho', heq], by rw [ho]; simp⟩
  · intro ops s mrtcp block hs hkeep
    obtain ⟨error, s', heq, -, hadd⟩ := addMrt_spec hs.inv hkeep
    refine ⟨error, s', heq, fun herr => ⟨(hadd herr).1, ?_⟩⟩
    intro r hr
    refine (hadd herr).2 r ?_
    intro hsame
    rcases hr with hr | hr
    · exact hr hsame.1
    · exact hr hsame.2

/-! ## Prefixes that are not apart -/

/-- A host with no subnets, and the table size of the original release. -/
def classful : MrtConf := ⟨[], fun n => n.toNat % 64⟩

/-- Network 10. -/
def net10 : Mrt := ⟨0x0a000000, 0xff000000, 1, 6, 4⟩

/-- 10.1 and 10.2, two parts of it. -/
def net10Part (k : UInt32) : Mrt := ⟨0x0a000000 + k * 0x10000, 0xffff0000, 2, 8, 8⟩

theorem net10Part_bucket {k a : UInt32} (hk : k = 1 ∨ k = 2) (h : (net10Part k).covers a = true) :
    nethash classful a = nethash classful (net10Part k).origin := by
  have hpart : ∀ m : UInt32, 0xffff0000 &&& m = m → a &&& m = (net10Part k).origin &&& m := by
    intro m hm
    have hcov : a &&& (net10Part k).originmask = (net10Part k).origin := by
      simpa [Mrt.covers] using h
    rw [← hcov, UInt32.and_assoc]
    exact congrArg (a &&& ·) hm.symm
  have hclass : inClassa a = true := by
    rw [inClassa, hpart 0x80000000 rfl]
    rcases hk with rfl | rfl <;> rfl
  have horigin : inClassa (net10Part k).origin = true := by rcases hk with rfl | rfl <;> rfl
  have hnet : ∀ i, inClassa i = true → inNetof classful i = i &&& 0xff000000 := by
    intro i hi
    simp only [inNetof, hi, if_true]
    rfl
  rw [nethash, nethash, hnet a hclass, hnet _ horigin, hpart 0xff000000 rfl]

theorem mrttable_is_a_set_net10 :
    ∃ s, MrtReaches classful (KeepsApart classful) [.add (net10Part 1) (some 0)] s ∧
      ∃ error s', addMrt classful (net10Part 2) (some 1) s = some (error, s') ∧
        (error = none → net10Part 2 ∈ s'.routes ∧
          ∀ r : Mrt, r.origin ≠ (net10Part 2).origin ∨ r.originmask ≠ (net10Part 2).originmask →
            (r ∈ s.routes ↔ r ∈ s'.routes)) := by
  have hempty : mrtStart.routes = ∅ := by
    ext r
    simp [MrtTable.routes, mrtStart]
  have hreach : MrtReaches classful (KeepsApart classful) [.add (net10Part 1) (some 0)]
      (mrtStart.link 0 (net10Part 1) 10) := by
    refine ⟨guarded_cons ?_ guarded_nil, rfl⟩
    intro u hu
    cases hu
    refine ⟨by decide, fun i => net10Part_bucket (.inl rfl), ?_⟩
    rw [hempty]
    exact fun r hr => hr.elim
  refine ⟨_, hreach, (mrttable_is_a_set classful).2 _ _ _ _ hreach ?_⟩
  refine ⟨by decide, fun i => net10Part_bucket (.inr rfl), ?_⟩
  intro r ⟨b, i, hi, hr⟩ _
  obtain rfl : i = 0 := by
    simp only [MrtTable.link, chainInsert, Function.update, mrtStart] at hi
    split at hi <;> simp_all
  obtain rfl : net10Part 1 = r := hr
  refine ⟨by decide, ?_⟩
  intro a ha
  have hcov : a &&& (net10Part 1).originmask = (net10Part 1).origin := by
    simpa [Mrt.covers] using ha
  show (a &&& (net10Part 1).originmask == (net10Part 2).origin) = false
  rw [hcov]
  rfl

/-- The address a call is about. -/
def MrtOp.address : MrtOp → UInt32
  | .find origin => origin
  | .add mrtcp _ => mrtcp.origin
  | .del origin => origin

/-- With 10.1 under network 10 the table is none: which of the two routes an address
of 10.1 gets depends on what was looked up before, and once network 10 is there
10.1 cannot be added, the request goes into the route of network 10 instead. -/
theorem mrttable_is_no_set :
    ¬ FindsByRoutes classful (fun _ op => inNetof classful op.address ≠ 0) ∧
      ¬ AddsRoute classful (fun _ op => inNetof classful op.address ≠ 0) := by
  have hguard : ∀ ops : List MrtOp, (∀ op ∈ ops, inNetof classful op.address ≠ 0) →
      Guarded (mrtStep classful) (fun t op => ∀ u : MrtTable, t = some u →
        inNetof classful op.address ≠ 0) (some mrtStart) ops :=
    fun ops h pre op hpre _ _ => h op (hpre.subset (by simp))
  constructor
  · intro h
    have hfind := h [.add (net10Part 1) (some 0), .find 0x0a010001, .add net10 (some 1)]
      [.add (net10Part 1) (some 0), .find 0x0a010001, .add net10 (some 1), .find 0x0a020001] _ _
      ⟨hguard _ (by decide), rfl⟩ ⟨hguard _ (by decide), rfl⟩ rfl 0x0a010001 (by decide) (by decide)
    have hwarm : some (some (net10Part 1)) = some (some net10) := hfind.1
    exact absurd hwarm (by decide)
  · intro h
    obtain ⟨error, s', heq, hadd⟩ := h [.add net10 (some 0)] _ (net10Part 1) (some 1)
      ⟨hguard _ (by decide), rfl⟩ (by decide)
    obtain ⟨rfl, rfl⟩ := Prod.mk.inj (Option.some.inj heq)
    obtain ⟨⟨b, i, hi, hr⟩, -⟩ := hadd rfl
    obtain rfl : i = 0 := by
      simp only [chainInsert, Function.update, mrtStart] at hi
      split at hi <;> simp_all
    exact absurd (congrArg Mrt.originmask hr) (by decide)

/-! ## Addresses without a network number

Any address can stand in a packet or in a request, and `nethash` gets it as it
is. -/

/-- The network of an address by its class. -/
def classNet (i : UInt32) : UInt32 :=
  if inClassa i then i &&& 0xff000000
  else if inClassb i then i &&& 0xffff0000
  else if inClassc i then i &&& 0xffffff00
  else i &&& 0xf0000000

/-- What of an address says whether it has a network number: the first octet, and on a network that
has an interface here the part under the subnet mask. -/
def MrtConf.netPart (c : MrtConf) (i : UInt32) : UInt32 :=
  match c.inIfaddr.find? (fun ia => classNet i == ia.iaNet) with
  | some ia => i &&& ia.iaSubnetmask
  | none => i &&& 0xff000000

/-- An address of class A to D whose network part is not zero. -/
def MrtConf.HasNet (c : MrtConf) (i : UInt32) : Prop :=
  (inClassa i = true ∨ inClassb i = true ∨ inClassc i = true ∨ inClassd i = true) ∧ c.netPart i ≠ 0

/-- The loop of `nethash` comes to an end, with a bucket of the table, and so do the functions that
hash this origin. -/
structure HashEnds (c : MrtConf) (size : Nat) (origin : UInt32) : Prop where
  bucket : ∃ k n, nethashLoop k (inNetof c origin) = some n ∧ c.mrthashmod n < size
  find : ∀ s, mrtfind c origin s ≠ none
  add : ∀ mrtcp block s, mrtcp.origin = origin → addMrt c mrtcp block s ≠ none
  del : ∀ s, delMrt c origin s ≠ none

/-- However long zero is shifted, no octet of it is not zero. -/
theorem nethashLoop_zero (k : Nat) : nethashLoop k 0 = none := by
  induction k with
  | zero => rfl
  | succ k ih =>
      rw [nethashLoop, if_pos (by decide)]
      exact ih

theorem and_ne_zero_of_and {i m n : UInt32} (hmn : n &&& m = m) (h : i &&& m ≠ 0) :
    i &&& n ≠ 0 := by
  intro hzero
  refine h ?_
  rw [← hmn, ← UInt32.and_assoc, hzero, UInt32.zero_and]

theorem inNetof_ne_zero {c : MrtConf} {i : UInt32} : inNetof c i ≠ 0 ↔ c.HasNet i := by
  have hfind : ∀ net : UInt32, (net ≠ 0 ↔ i &&& 0xff000000 ≠ 0) →
      ((match c.inIfaddr.find? (fun ia => net == ia.iaNet) with
        | some ia => i &&& ia.iaSubnetmask
        | none => net) ≠ (0 : UInt32) ↔
      (match c.inIfaddr.find? (fun ia => net == ia.iaNet) with
        | some ia => i &&& ia.iaSubnetmask
        | none => i &&& 0xff000000) ≠ (0 : UInt32)) := by
    intro net hnet
    cases c.inIfaddr.find? (fun ia => net == ia.iaNet) with
    | some ia => exact Iff.rfl
    | none => exact hnet
  rw [MrtConf.HasNet, inNetof, MrtConf.netPart, classNet]
  by_cases ha : inClassa i = true
  · simp only [ha, if_true, true_or, true_and]
  -- above class A the first octet is never 0, and neither is the network
  have hfirst : i &&& 0x80000000 ≠ 0 := by simpa [inClassa] using ha
  have hoctet : i &&& 0xff000000 ≠ 0 := and_ne_zero_of_and (by decide) hfirst
  have hnet : ∀ m : UInt32, m &&& 0x80000000 = 0x80000000 →
      (i &&& m ≠ 0 ↔ i &&& 0xff000000 ≠ 0) :=
    fun m hm => iff_of_true (and_ne_zero_of_and hm hfirst) hoctet
  by_cases hb : inClassb i = true
  · simp only [ha, hb, if_true, true_or, or_true, true_and]
    exact hfind _ (hnet 0xffff0000 (by decide))
  by_cases hc : inClassc i = true
  · simp only [ha, hb, hc, if_true, true_or, or_true, true_and]
    exact hfind _ (hnet 0xffffff00 (by decide))
  by_cases hd : inClassd i = true
  · simp only [ha, hb, hc, hd, if_true, or_true, true_and]
    exact hfind _ (hnet 0xf0000000 (by decide))
  · simp only [ha, hb, hc, hd]
    simp

/-- The hash of an origin ends, and everything that takes it, exactly for the addresses that have a
network number. -/
theorem nethash_ends_iff (c : MrtConf) {size : Nat} (hmod : ∀ n, c.mrthashmod n < size)
    (origin : UInt32) : HashEnds c size origin ↔ c.HasNet origin := by
  rw [← inNetof_ne_zero]
  constructor
  · intro h hzero
    obtain ⟨k, n, hn, -⟩ := h.bucket
    rw [hzero, nethashLoop_zero] at hn
    cases hn
  · intro hnet
    obtain ⟨n, hn⟩ : ∃ n, nethashLoop 4 (inNetof c origin) = some n :=
      Option.ne_none_iff_exists'.mp fun hnone =>
        hnet ((nethashLoop_eq_none (UInt32.toNat_lt _)).mp hnone)
    have hhash : nethash c origin = some (c.mrthashmod n) := by rw [nethash, hn, Option.map_some]
    have hfind : ∀ s, mrtfind c origin s ≠ none := by
      intro s
      rw [mrtfind, hhash]
      dsimp only
      split
      · exact Option.some_ne_none _
      · split
        · exact Option.some_ne_none _
        · exact Option.some_ne_none _
    refine ⟨⟨4, n, hn, hmod n⟩, hfind, ?_, ?_⟩
    · intro mrtcp block s horigin
      rw [addMrt, horigin]
      split
      · next hnone => exact absurd hnone (hfind s)
      · exact Option.some_ne_none _
      · split
        · exact Option.some_ne_none _
        · rw [hhash]
          exact Option.some_ne_none _
    · intro s
      rw [delMrt, hhash]
      dsimp only
      split
      · exact Option.some_ne_none _
      · exact Option.some_ne_none _

theorem nethash_ends_net10 : HashEnds classful 64 0x0a000001 :=
  (nethash_ends_iff classful (fun n => Nat.mod_lt n.toNat (by decide)) 0x0a000001).mpr
    ⟨.inl (by decide), by decide⟩

/-- The hash of 240.0.0.1, an address above class D, and of 0.0.0.1 does not end. -/
theorem nethash_no_end : ¬ HashEnds classful 64 0xf0000001 ∧ ¬ HashEnds classful 64 1 := by
  constructor
  · intro h
    exact h.del mrtStart (by decide)
  · intro h
    exact h.del mrtStart (by decide)

end VxWorks.Netinet
