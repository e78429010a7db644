import VxWorks.Ppp.LcpLink

/-!
# The two ends agree

While the link is open at both ends, what one of them has recorded of the other is
what the other has asked for last. All there is to it then is that a record says
what the options say that `lcp_addci` has written, and both are one reading of the
same list of options.
-/

namespace VxWorks.Ppp

open VxWorks.Lib

variable {σ : Type}

theorem LcpRest.sendEchoRequest_turn {a : LcpRest σ} {w : World (LcpLayer σ)} (number : UInt8)
    (h : Steady w) : Turn w none (a.sendEchoRequest number w) := by
  have hstay : Turn w none w := LcpRest.stay_turn h nofun
  rw [sendEchoRequest]
  split
  · exact LcpRest.sdata_turn hstay (by decide) fun hcode => absurd hcode (by decide)
  · exact hstay

/-! ## Runs -/

namespace Ends

variable {n : Ends σ} {i : End} {x : Party σ}

@[simp] theorem put_same : n.put i x i = x := if_pos rfl

@[simp] theorem put_other : n.put i x i.other = n i.other := by
  cases i <;> rfl

@[simp] theorem put_of_other : n.put i.other x i = n i := by
  cases i <;> rfl

/-- What every run keeps. -/
def Fair (n : Ends σ) : Prop :=
  ∃ heard : End → Nat, ∀ i, Both (heard i) (heard i.other) (n i) (n i.other)

theorem fair_of_both {hx hy : Nat} (h : Both hx hy (n i) (n i.other)) : n.Fair := by
  refine ⟨fun j => if j = i then hx else hy, ?_⟩
  intro j
  cases i with
  | near =>
      cases j with
      | near => exact h
      | far => exact h.symm
  | far =>
      cases j with
      | far => exact h
      | near => exact h.symm

/-- Both ends are what they are, wherever they are written. -/
theorem fair_put {hx hy : Nat} {y : Party σ} (h : Both hx hy x y) (hy' : n i.other = y) :
    (n.put i x).Fair := by
  have h' : Both hx hy (n.put i x i) (n.put i x i.other) := by
    rw [put_same, put_other, hy']
    exact h
  exact fair_of_both h'

variable {a : End → LcpRest σ}

theorem step_deliver_nil (h : (n i.other).line = []) : step a n (.deliver i) = n := by
  simp only [step, h]

theorem step_deliver_cons {m : Flight} {rest : List Flight} (h : (n i.other).line = m :: rest) :
    step a n (.deliver i) =
      (n.put i.other { n i.other with line := rest }).put i (((n i).see m).act
        ((a i).step (a i).recorded ((n i).see m).lcp (.fsm (.input m.packet.octets)))) := by
  simp only [step, h]

theorem step_fair (h : n.Fair) (hfree : n.NoReuse) (e : LinkEvent) : (step a n e).Fair := by
  obtain ⟨heard, hboth⟩ := h
  have hcall (i : End) (w : World (LcpLayer σ)) (ht : Turn (n i).lcp none w) :
      (n.put i ((n i).act w)).Fair := fair_put ((hboth i).act ht nofun) rfl
  have hsteady (i : End) : Steady (n i).lcp := (hboth i).asks.steady
  cases e with
  | call i c =>
      cases c with
      | unknown protocol inpacket => exact hcall i _ (LcpRest.step_turn _ nofun (hsteady i))
      | fsm call =>
          cases call with
          | input inpacket => exact ⟨heard, hboth⟩
          | _ => exact hcall i _ (LcpRest.step_turn _ nofun (hsteady i))
  | echo i number => exact hcall i _ (LcpRest.sendEchoRequest_turn number (hsteady i))
  | lose i k => exact fair_put ((hboth i).lose (List.eraseIdx_sublist _ k)) rfl
  | deliver i =>
      cases hline : (n i.other).line with
      | nil =>
          rw [step_deliver_nil hline]
          exact ⟨heard, hboth⟩
      | cons m rest =>
          rw [step_deliver_cons hline]
          have hm : m ∈ (n i.other).line := hline ▸ List.mem_cons_self
          obtain ⟨hsee, hcame⟩ := (hboth i).see hline (hfree i m hm)
          have ht := LcpRest.input_turn (a := a i) m.packet.octets (hsteady i)
          refine fair_put (hsee.act ht fun p hp => ⟨m, hcame p ?_⟩) put_same
          unfold arrival at hp
          split_ifs at hp
          exact hp

/-- An instance of LCP, right after `lcp_init` and the assignments to its options. -/
def start (random : End → UInt8) (f : End → Fsm) (want allow : End → LcpOptions)
    (env : End → σ) : Ends σ := fun i =>
  { lcp := World.start (random i) (f i) ⟨{ lcpInit with want := want i, allow := allow i }, env i⟩
    line := []
    saw := 0 }

section

variable (random : End → UInt8) (f : End → Fsm) (want allow : End → LcpOptions) (env : End → σ)

theorem start_steady (i : End) : Steady (start random f want allow env i).lcp where
  mru := nofun
  asking := nofun
  theirs h := by rcases h with h | h <;> cases h
  ours := nofun

theorem start_held (i j : End) : Held 0 0 (start random f want allow env i)
    (start random f want allow env j) where
  steady := start_steady random f want allow env i
  sorted := List.Pairwise.nil
  bounded := nofun
  seen := Nat.le_refl _
  answered := List.Pairwise.nil
  later := nofun
  looked := Nat.le_refl _
  sent := nofun
  last := nofun
  replies := nofun
  acks := nofun
  termreqs := nofun
  termacks := nofun
  slid h := by cases h.1

theorem start_fair : (start random f want allow env).Fair :=
  ⟨fun _ => 0, fun i => ⟨start_held random f want allow env i i.other,
    start_held random f want allow env i.other i, fun h => by cases h.1⟩⟩

end

/-- While the link is open at both ends, the request that this end has recorded is the last
one of the other's. -/
theorem Fair.recorded (h : n.Fair) (hopen : ∀ i, (n i).lcp.f.state = .opened) (i : End) :
    (n i.other).lcp.env.link.his = lcpHeard (lcpAddci (n i).lcp.env.link.got) := by
  obtain ⟨heard, hboth⟩ := h
  have hlive (j : End) : (n j).lcp.f.state.live = true := by rw [hopen j]; rfl
  have hnext (j : End) : (n j).lcp.next = uses (n j).lcp.log := next_of_live (hlive j)
  have hacked (j : End) : acked (n j).lcp.log = true := by
    by_contra hnot
    rw [Bool.not_eq_true] at hnot
    have hslid : Slid (n j).lcp := ⟨hopen j, hnot⟩
    have hother : acked (n j.other).lcp.log = true := by
      by_contra hnot'
      rw [Bool.not_eq_true] at hnot'
      exact (hboth j).one hslid ⟨hopen _, hnot'⟩
    have hlt := (hboth j).asks.slid hslid
    rw [hnext] at hlt
    have heq := ((hboth j).answers.acks (hlive _) hother).1
    omega
  have hheld := (hboth i).asks
  have hask := hheld.steady.asking (hlive i)
  obtain ⟨heq, -⟩ := hheld.acks (hlive i) (hacked i)
  obtain ⟨q, p, ⟨l, hl, -, hu⟩, hcode, hparse, hheard⟩ := hheld.last (heq ▸ hask.begun)
  have hdata : q.data = lcpAddci (n i).lcp.env.link.got :=
    hask.data.of_suffix hl hcode (hu.trans heq)
  have hsame : p.data = q.data := by
    have hlen := length_lcpAddci (n i).lcp.env.link.got
    have hroom := (room_for_options (Int.le_refl _) (n i).lcp.env.link.got IpcpOptions.zero).1
    have hhead : max 0 ((minmru.toNat : Int) - headerlen) = 124 := rfl
    refine (parseHeader_octets hparse).2.2 ?_
    rw [hdata]
    omega
  obtain ⟨data, hdata', hhis⟩ := (hboth i).answers.steady.theirs (.inr (hopen i.other))
  have hlast : data = p.data := Option.some.inj (hdata'.symm.trans hheard)
  rw [hhis, hlast, hsame, hdata]

end Ends

/-! ## What the options say -/

/-- The two ends mean the same: which options are in force, with which values, and which
protocol the owner of `go` has asked the other to authenticate itself by. -/
structure LcpOptions.Agrees (ho go : LcpOptions) : Prop where
  negMru : ho.negMru = go.negMru
  mru : go.negMru = true → ho.mru = go.mru
  negAsyncmap : ho.negAsyncmap = go.negAsyncmap
  asyncmap : go.negAsyncmap = true → ho.asyncmap = go.asyncmap
  negMagicnumber : ho.negMagicnumber = go.negMagicnumber
  magicnumber : go.negMagicnumber = true → ho.magicnumber = go.magicnumber
  negPcompression : ho.negPcompression = go.negPcompression
  negAccompression : ho.negAccompression = go.negAccompression
  negChap : ho.negChap = go.negChap
  chapMdtype : go.negChap = true → ho.chapMdtype = go.chapMdtype
  /-- Only one protocol is asked for, even if either is accepted. -/
  negUpap : ho.negUpap = (!go.negChap && go.negUpap)

theorem any_optCi (neg : Bool) (t l : UInt8) (body : List UInt8) (f : ReqCi → Bool) :
    (optCi neg t l body).any f = (neg && f (.opt t l body)) := by
  cases neg <;> simp [optCi]

theorem filterMap_optCi {α : Type} (neg : Bool) (t l : UInt8) (body : List UInt8)
    (f : ReqCi → Option α) :
    (optCi neg t l body).filterMap f = if neg then (f (.opt t l body)).toList else [] := by
  cases neg <;> cases h : f (.opt t l body) <;> simp [optCi, h]

theorem lcpHeard_agrees (go : LcpOptions) : (lcpHeard (lcpAddci go)).Agrees go := by
  have hcis : reqCis (lcpAddci go).length (lcpAddci go) = lcpCis go := by
    rw [← flatMap_lcpCis]
    exact reqCis_flatMap (lcpCis_whole go) (Nat.le_refl _)
  have hshort (v : UInt16) (rest : List UInt8) : shortAt (put16 v ++ rest) = v := get16_put16 v
  have hshort' (v : UInt16) : shortAt (put16 v) = v := get16_put16 v
  have hlong (v : UInt32) : longAt (put32 v) = v := get32_put32 v
  have hne : upapProto ≠ chapProto := by decide
  rw [lcpHeard]
  rw [hcis]
  constructor <;>
    simp only [lcpSaid, lcpCis, lastOf, List.any_append, List.filterMap_append, any_optCi,
      filterMap_optCi, ReqCi.hasType, ReqCi.value, ReqCi.asksFor, ReqCi.chapDigest, hshort,
      hshort', hlong, ciMru, ciAsyncmap, ciAuthtype, ciQuality, ciMagicnumber, ciPcompression,
      ciAccompression]
  case negChap => cases go.negChap <;> simp [hne]
  case negUpap => cases go.negChap <;> simp [hne.symm]
  case chapMdtype =>
      intro h
      simp [h, put16]
  all_goals first
    | intro h; simp [h]
    | simp

/-- Two instances of LCP over a line that may lose packets, in any order of commands, events and
timers, mean the same by the options while the link is open at both ends. -/
theorem lcp_agreement (a : End → LcpRest σ) (random : End → UInt8) (f : End → Fsm)
    (want allow : End → LcpOptions) (env : End → σ) (es : List LinkEvent)
    (hfree : Always (Ends.step a) Ends.NoReuse (Ends.start random f want allow env) es) :
    Always (Ends.step a)
      (fun n => (∀ i, (n i).lcp.f.state = .opened) →
        ∀ i, (n i.other).lcp.env.link.his.Agrees (n i).lcp.env.link.got)
      (Ends.start random f want allow env) es := by
  intro pre hpre hopen i
  have hfair : Always (Ends.step a) Ends.Fair (Ends.start random f want allow env) es :=
    always_of_guarded (G := fun n _ => n.NoReuse) Ends.Fair
      (Ends.start_fair random f want allow env) (fun _ e h hfree => Ends.step_fair h hfree e)
      (fun pre' e hpre' => hfree pre' ((List.prefix_append pre' [e]).trans hpre'))
  rw [(hfair pre hpre).recorded hopen i]
  exact lcpHeard_agrees _

/-- Two ends with nothing around them, and numbers of their own. -/
def Ends.plain (i : End) : LcpRest Unit :=
  { LcpRest.bare with magic := fun k => match i with | .near => 7 | .far => 700 + UInt32.ofNat k }

def Ends.fresh : Ends Unit :=
  Ends.start (fun _ => 0) default (fun _ => lcpInit.want) (fun _ => lcpInit.allow) default

/-- The first request of one end is lost, and goes out again. -/
def LinkEvent.opening : List LinkEvent :=
  [.call .near (.fsm .open), .call .far (.fsm .open), .call .near (.fsm .lowerup),
    .call .far (.fsm .lowerup), .lose .near 0, .deliver .near, .call .near (.fsm .timeout),
    .deliver .far, .deliver .far, .deliver .near]

theorem lcp_agreement_opening :
    let n := run (Ends.step Ends.plain) Ends.fresh LinkEvent.opening
    (∀ i, (n i).lcp.f.state = .opened) ∧
      ∀ i, (n i.other).lcp.env.link.his.Agrees (n i).lcp.env.link.got := by
  have hopen : ∀ i, (run (Ends.step Ends.plain) Ends.fresh LinkEvent.opening i).lcp.f.state =
      .opened := by
    intro i
    cases i <;> decide +kernel
  exact ⟨hopen, lcp_agreement Ends.plain (fun _ => 0) default (fun _ => lcpInit.want)
    (fun _ => lcpInit.allow) default LinkEvent.opening (by decide +kernel) LinkEvent.opening
    (List.prefix_refl _) hopen⟩

end VxWorks.Ppp
