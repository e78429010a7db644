import VxWorks.Ppp.LcpTurn

/-!
# Two instances of LCP and the line between them

The line keeps the order, and it may lose. A packet on its way is noted with two
numbers that are not sent: the use of an id that it went out in, and the use of the
peer's that its sender had heard of by then. Both only grow along the line, and
this is all that the order is needed for.

What holds of the two ends is said of one of them at a time, as the end whose
requests are answered, `Held`. An acknowledgement that is taken answers the last
use, so that every reply behind it does as well, and the peer has recorded what the
last use has asked for.

It is not quite so for an open link. `fsm_rtermack` sends a new request and leaves
the link open, and then the request that was acknowledged is not the last one. But
the peer had gone down to send what brought this about, and this end has not looked
at a request of its since, so that the peer cannot be open: the field `slid` keeps
hold of that, and it is not possible for both ends at once.
-/

namespace VxWorks.Ppp

open VxWorks.Lib

variable {σ : Type}

/-! ## The line -/

/-- The two ends of the line. -/
inductive End where
  | near
  | far
deriving DecidableEq, Repr

def End.other : End → End
  | .near => .far
  | .far => .near

/-- A packet on its way. The two numbers are not on the line: in which use of an id it went
out, and which use of the peer's its sender had heard of by then. A reply goes out in the call
that brings its request, so `saw` is the use it replies to. -/
structure Flight where
  packet : CpPacket
  use : Nat
  saw : Nat
deriving DecidableEq, Repr

/-- An instance of LCP, and the line from it to the peer, oldest packet first. -/
structure Party (σ : Type) where
  lcp : World (LcpLayer σ)
  line : List Flight
  /-- The use in which the last packet that came in went out. -/
  saw : Nat

/-- What went out since the history had this length, newest first. -/
def sentSince (n : Nat) : List FsmEvent → List (Nat × CpPacket)
  | [] => []
  | e :: l =>
      if l.length < n then []
      else match e with
        | .sent q => (uses l, q) :: sentSince n l
        | _ => sentSince n l

namespace Party

/-- A call has led to `w`, and what went out is on the line. -/
def act (x : Party σ) (w : World (LcpLayer σ)) : Party σ :=
  { x with
    lcp := w
    line := x.line ++
      (sentSince x.lcp.log.length w.log).reverse.map fun s => ⟨s.2, s.1, x.saw⟩ }

/-- The packet reaches this end. -/
def see (x : Party σ) (m : Flight) : Party σ := { x with saw := m.use }

end Party

/-- `LcpSendEchoRequest`, without the test for a failure of the peer. -/
def LcpRest.sendEchoRequest (a : LcpRest σ) (number : UInt8) (w : World (LcpLayer σ)) :
    World (LcpLayer σ) :=
  if w.f.state = .opened then
    fsmSdata a.recorded echoreq number
      (put32 (if w.env.link.got.negMagicnumber then w.env.link.got.magicnumber else 0)) w
  else w

/-- Both ends. -/
abbrev Ends (σ : Type) := End → Party σ

/-- What can happen. -/
inductive LinkEvent where
  /-- A command, an event of the lower layer or the expiry of a timer. -/
  | call (i : End) (c : LcpCall)
  | echo (i : End) (number : UInt8)
  /-- The oldest packet on the line to this end comes in. -/
  | deliver (i : End)
  /-- A packet that this end has sent is lost. -/
  | lose (i : End) (k : Nat)
deriving DecidableEq, Repr

namespace Ends

def put (n : Ends σ) (i : End) (x : Party σ) : Ends σ := fun j => if j = i then x else n j

variable (a : End → LcpRest σ)

/-- Packets come from the line and from nowhere else. -/
def step (n : Ends σ) : LinkEvent → Ends σ
  | .call _ (.fsm (.input _)) => n
  | .call i c => n.put i ((n i).act ((a i).step (a i).recorded (n i).lcp c))
  | .echo i number => n.put i ((n i).act ((a i).sendEchoRequest number (n i).lcp))
  | .deliver i =>
      match (n i.other).line with
      | [] => n
      | m :: rest =>
          let x := (n i).see m
          (n.put i.other { n i.other with line := rest }).put i
            (x.act ((a i).step (a i).recorded x.lcp (.fsm (.input m.packet.octets))))
  | .lose i k => n.put i { n i with line := (n i).line.eraseIdx k }

end Ends

/-- No reply to an earlier use of an id is on its way while a Configure-Request has the id. -/
def Ends.NoReuse (n : Ends σ) : Prop :=
  ∀ i, ∀ m ∈ (n i.other).line, replyCode m.packet.code →
    lastSconfreq (n i).lcp.log = some m.packet.id → m.saw = uses (n i).lcp.log

instance (n : Ends σ) : Decidable n.NoReuse :=
  decidable_of_iff ((∀ m ∈ (n .far).line, replyCode m.packet.code →
      lastSconfreq (n .near).lcp.log = some m.packet.id → m.saw = uses (n .near).lcp.log) ∧
    ∀ m ∈ (n .near).line, replyCode m.packet.code →
      lastSconfreq (n .far).lcp.log = some m.packet.id → m.saw = uses (n .far).lcp.log)
    ⟨fun h i => by cases i; exacts [h.1, h.2], fun h => ⟨h .near, h .far⟩⟩

/-! ## What went out -/

/-- This packet went out in this use, when the history was not shorter than that. -/
def SentIn (n u : Nat) (q : CpPacket) (log : List FsmEvent) : Prop :=
  ∃ l, .sent q :: l <:+ log ∧ n ≤ l.length ∧ uses l = u

theorem SentIn.mono {n u : Nat} {q : CpPacket} {log log' : List FsmEvent} (h : SentIn n u q log)
    (hl : log <:+ log') : SentIn n u q log' :=
  let ⟨l, hsent, hn, hu⟩ := h
  ⟨l, hsent.trans hl, hn, hu⟩

theorem mem_sentSince {n u : Nat} {q : CpPacket} {log : List FsmEvent}
    (h : (u, q) ∈ sentSince n log) : SentIn n u q log := by
  induction log with
  | nil => cases h
  | cons e log ih =>
      unfold sentSince at h
      split at h
      · cases h
      next hn =>
      have hrest (h : (u, q) ∈ sentSince n log) : SentIn n u q (e :: log) :=
        (ih h).mono (List.suffix_cons e log)
      cases e with
      | sent p =>
          rcases List.mem_cons.mp h with heq | h
          · cases heq
            exact ⟨log, List.suffix_refl _, by omega, rfl⟩
          · exact hrest h
      | _ => exact hrest h

theorem SentIn.use_le {n u : Nat} {q : CpPacket} {log : List FsmEvent} (h : SentIn n u q log) :
    u ≤ uses log := by
  obtain ⟨l, hsent, -, rfl⟩ := h
  exact uses_mono ((List.suffix_cons _ l).trans hsent)

theorem SentIn.le_use {u : Nat} {q : CpPacket} {log log' : List FsmEvent}
    (h : SentIn log.length u q log') (hl : log <:+ log') : uses log ≤ u := by
  obtain ⟨l, hsent, hn, rfl⟩ := h
  exact uses_mono (List.suffix_of_suffix_length_le hl ((List.suffix_cons _ l).trans hsent) hn)

theorem sentSince_sorted (n : Nat) (log : List FsmEvent) :
    (sentSince n log).Pairwise fun s s' => s'.1 ≤ s.1 := by
  induction log with
  | nil => exact List.Pairwise.nil
  | cons e log ih =>
      unfold sentSince
      split
      · exact List.Pairwise.nil
      · cases e with
        | sent q => exact List.Pairwise.cons (fun s hs => (mem_sentSince hs).use_le) ih
        | _ => exact ih

/-- A packet is read as what it is, as far as its length fits into the header. -/
theorem parseHeader_octets {q p : CpPacket} (h : parseHeader q.octets = some p) :
    p.code = q.code ∧ p.id = q.id ∧ (q.data.length < 65532 → p.data = q.data) := by
  have hget := get16_put16 (UInt16.ofNat (q.data.length + 4))
  unfold CpPacket.octets put16 parseHeader at h
  dsimp only [List.cons_append, List.nil_append] at h
  rw [hget] at h
  split_ifs at h
  cases h
  refine ⟨rfl, rfl, fun hlen => List.take_of_length_le ?_⟩
  have hfield : (UInt16.ofNat (q.data.length + 4)).toNat = q.data.length + 4 :=
    Nat.mod_eq_of_lt (by omega)
  omega

/-! ## What holds of the two -/

/-- The use that the link is open with, when it is. -/
def World.next (w : World (LcpLayer σ)) : Nat :=
  if w.f.state.live then uses w.log else uses w.log + 1

/-- The link is open, and the last request of this end was not acknowledged. -/
def Slid (w : World (LcpLayer σ)) : Prop := w.f.state = .opened ∧ acked w.log = false

/-- What holds of the requests of `x` and the answers of `y`, where `hx` is the use of the
request of `y` that `x` has looked at last, and `hy` the other way round. -/
structure Held (hx hy : Nat) (x y : Party σ) : Prop where
  steady : Steady x.lcp
  sorted : x.line.Pairwise fun m m' => m.use ≤ m'.use
  bounded : ∀ m ∈ x.line, y.saw ≤ m.use ∧ m.use ≤ uses x.lcp.log
  seen : y.saw ≤ uses x.lcp.log
  answered : y.line.Pairwise fun m m' => m.saw ≤ m'.saw
  later : ∀ m ∈ y.line, m.saw ≤ y.saw
  looked : hy ≤ y.saw
  sent : ∀ m ∈ x.line, SentIn 0 m.use m.packet x.lcp.log
  last : 0 < hy → ∃ q p, SentIn 0 hy q x.lcp.log ∧ q.code = confreq ∧
    parseHeader q.octets = some p ∧ lastHeard y.lcp.log = some p.data
  replies : ∀ m ∈ y.line, replyCode m.packet.code → m.saw ≤ hy
  acks : x.lcp.f.state.live = true → acked x.lcp.log = true →
    hy = uses x.lcp.log ∧ ∀ m ∈ y.line, uses x.lcp.log ≤ m.saw
  termreqs : ∀ m ∈ x.line, m.packet.code = termreq → m.use < x.lcp.next
  termacks : ∀ m ∈ y.line, m.packet.code = termack → m.saw < x.lcp.next ∨ m.use < y.lcp.next
  slid : Slid x.lcp → hx < y.lcp.next

/-- The packet `p` has come in at `x`, on the flight `m` from `y`. -/
structure Came (hy : Nat) (x y : Party σ) (m : Flight) (p : CpPacket) : Prop where
  code : p.code = m.packet.code
  parsed : parseHeader m.packet.octets = some p
  saw : x.saw = m.use
  sent : SentIn 0 m.use m.packet y.lcp.log
  replies : replyCode p.code → m.saw ≤ hy
  free : replyCode p.code → lastSconfreq x.lcp.log = some p.id → m.saw = uses x.lcp.log
  behind : ∀ m' ∈ y.line, m.saw ≤ m'.saw
  acks : x.lcp.f.state.live = true → acked x.lcp.log = true → uses x.lcp.log ≤ m.saw
  termreqs : p.code = termreq → m.use < y.lcp.next
  termacks : p.code = termack → m.saw < x.lcp.next ∨ m.use < y.lcp.next

/-- A flight that `x` has started in a call that led to `w`. -/
structure Started (inc : Option CpPacket) (x : Party σ) (w : World (LcpLayer σ)) (m : Flight) :
    Prop where
  saw : m.saw = x.saw
  bounded : uses x.lcp.log ≤ m.use ∧ m.use ≤ uses w.log
  sent : SentIn 0 m.use m.packet w.log
  replies : replyCode m.packet.code → Hears inc confreq
  termreqs : m.packet.code = termreq → m.use < w.next
  termacks : m.packet.code = termack → Hears inc termreq ∨ m.use < w.next

section

variable {x y : Party σ} {w : World (LcpLayer σ)} {inc : Option CpPacket} {hx hy : Nat}

theorem Turn.next_le (h : Turn x.lcp inc w) : x.lcp.next ≤ w.next := by
  have hmono := uses_mono h.sofar.grown
  unfold World.next
  by_cases hl : w.f.state.live = true
  · obtain ⟨-, hsince⟩ := h.asking hl
    rw [if_pos hl]
    split
    · exact hmono
    · next hdead =>
        have hne : uses w.log ≠ uses x.lcp.log := fun heq => hdead (hsince.fresh heq)
        omega
  · rw [if_neg hl]
    split <;> omega

theorem use_lt_next {n u : Nat} {q : CpPacket} (h : SentIn n u q w.log)
    (hlive : w.f.state.live = true → u < uses w.log) : u < w.next := by
  have hle := h.use_le
  rw [World.next]
  split
  · next hl => exact hlive hl
  · omega

theorem Turn.started (h : Turn x.lcp inc w) {m : Flight}
    (hm : m ∈ (sentSince x.lcp.log.length w.log).reverse.map fun s => ⟨s.2, s.1, x.saw⟩) :
    Started inc x w m := by
  obtain ⟨⟨u, q⟩, hs, rfl⟩ := List.mem_map.mp hm
  have hsent := mem_sentSince (List.mem_reverse.mp hs)
  have ⟨l, hl, hn, hu⟩ := hsent
  refine ⟨rfl, ⟨hsent.le_use h.sofar.grown, hsent.use_le⟩, ⟨l, hl, Nat.zero_le _, hu⟩,
    h.sofar.replies.of_suffix hl hn, ?_, ?_⟩
  · intro hcode
    refine use_lt_next hsent ?_
    intro hlive
    exact hu ▸ (h.asking hlive).1.termreq.of_suffix hl hcode
  · intro hcode
    by_cases hlive : w.f.state.live = true
    · rcases (h.asking hlive).2.termacks.of_suffix hl hn hcode with hreq | hlt
      · exact .inl hreq
      · exact .inr (use_lt_next hsent fun _ => hu ▸ hlt)
    · exact .inr (use_lt_next hsent fun hl => absurd hl hlive)

theorem mem_act {m : Flight} (h : Turn x.lcp inc w) (hm : m ∈ (x.act w).line) :
    m ∈ x.line ∨ Started inc x w m := by
  rcases List.mem_append.mp hm with hold | hnew
  · exact .inl hold
  · exact .inr (h.started hnew)

/-- The flights in order, if the old ones are, and the new ones come behind them. -/
theorem act_pairwise {f : Flight → Nat} (h : Turn x.lcp inc w)
    (hold : x.line.Pairwise fun m m' => f m ≤ f m')
    (hnew : ((sentSince x.lcp.log.length w.log).reverse.map fun s =>
      (⟨s.2, s.1, x.saw⟩ : Flight)).Pairwise fun m m' => f m ≤ f m')
    (hle : ∀ m ∈ x.line, ∀ m', Started inc x w m' → f m ≤ f m') :
    (x.act w).line.Pairwise fun m m' => f m ≤ f m' :=
  List.pairwise_append.mpr ⟨hold, hnew, fun m hm _ hm' => hle m hm _ (h.started hm')⟩

/-- What has been looked at after the call. -/
def lookedAt (inc : Option CpPacket) (x : Party σ) (hx : Nat) : Nat :=
  match inc with
  | some p => if p.code = confreq then x.saw else hx
  | none => hx

theorem lookedAt_of_hears (h : Hears inc confreq) : lookedAt inc x hx = x.saw := by
  cases inc with
  | none => cases h
  | some p => exact if_pos (Option.some.inj h)

theorem lookedAt_of_not_hears (h : ¬ Hears inc confreq) : lookedAt inc x hx = hx := by
  cases inc with
  | none => rfl
  | some p => exact if_neg fun hp => h (congrArg some hp)

/-- The requests of the end that acts. -/
theorem Held.act_asks (h : Held hx hy x y) (h' : Held hy hx y x) (ht : Turn x.lcp inc w)
    (hc : ∀ p, inc = some p → ∃ m, Came hy x y m p) :
    Held (lookedAt inc x hx) hy (x.act w) y := by
  have hmono := uses_mono ht.sofar.grown
  have hnext := ht.next_le
  refine ⟨ht.steady, ?_, ?_, h.seen.trans hmono, h.answered, h.later, h.looked, ?_, ?_, h.replies,
    ?_, ?_, ?_, ?_⟩
  · refine act_pairwise ht h.sorted ?_ ?_
    · rw [List.pairwise_map, List.pairwise_reverse]
      exact sentSince_sorted _ _
    · intro m hm m' hm'
      exact (h.bounded m hm).2.trans hm'.bounded.1
  · intro m hm
    rcases mem_act ht hm with hold | hnew
    · exact ⟨(h.bounded m hold).1, (h.bounded m hold).2.trans hmono⟩
    · exact ⟨h.seen.trans hnew.bounded.1, hnew.bounded.2⟩
  · intro m hm
    rcases mem_act ht hm with hold | hnew
    · exact (h.sent m hold).mono ht.sofar.grown
    · exact hnew.sent
  · intro hpos
    obtain ⟨q, p, hsent, hq⟩ := h.last hpos
    exact ⟨q, p, hsent.mono ht.sofar.grown, hq⟩
  · intro hlive hack
    obtain ⟨heq, hcase⟩ := (ht.asking hlive).2.acks hack
    have hwas : x.lcp.f.state.live = true := (ht.asking hlive).2.fresh heq
    show hy = uses w.log ∧ ∀ m ∈ y.line, uses w.log ≤ m.saw
    rw [heq]
    cases hold : acked x.lcp.log with
    | true => exact h.acks hwas hold
    | false =>
        rw [hold] at hcase
        obtain ⟨p, hp, hcode, hid⟩ := hcase.resolve_left nofun
        obtain ⟨m, hm⟩ := hc p hp
        have hlast : lastSconfreq x.lcp.log = some p.id := by
          rw [hid]
          refine (h.steady.asking hwas).ids.resolve_left ?_
          rw [hold]
          nofun
        have hsaw := hm.free (.inl hcode) hlast
        have hreply := hm.replies (.inl hcode)
        have hlook := h.looked
        have hseen := h.seen
        refine ⟨by omega, ?_⟩
        intro m' hm'
        rw [← hsaw]
        exact hm.behind m' hm'
  · intro m hm hcode
    rcases mem_act ht hm with hold | hnew
    · exact (h.termreqs m hold hcode).trans_le hnext
    · exact hnew.termreqs hcode
  · intro m hm hcode
    exact (h.termacks m hm hcode).imp_left fun hlt => hlt.trans_le hnext
  · rintro ⟨hopened, hack⟩
    obtain ⟨hwas, hnoreq, htermack⟩ := (ht.slips hopened).resolve_left (by
      rw [show acked w.log = false from hack]
      nofun)
    rw [lookedAt_of_not_hears hnoreq]
    cases hold : acked x.lcp.log with
    | false => exact h.slid ⟨hwas, hold⟩
    | true =>
        have hlive : x.lcp.f.state.live = true := by rw [hwas]; rfl
        obtain ⟨p, hp, hcode⟩ := Option.map_eq_some_iff.mp (htermack hold)
        obtain ⟨m, hm⟩ := hc p hp
        have hlook := h'.looked
        rw [hm.saw] at hlook
        rcases hm.termacks hcode with hlt | hlt
        · -- an acknowledged request and a Terminate-Ack that is older: the line keeps the order
          have hle := hm.acks hlive hold
          rw [World.next] at hlt
          rw [if_pos hlive] at hlt
          omega
        · exact hlook.trans_lt hlt

/-- The requests of the end that does not act. -/
theorem Held.act_answers (h' : Held hy hx y x) (ht : Turn x.lcp inc w)
    (hc : ∀ p, inc = some p → ∃ m, Came hy x y m p) :
    Held hy (lookedAt inc x hx) y (x.act w) := by
  have hnext := ht.next_le
  have hlook : hx ≤ lookedAt inc x hx ∧ lookedAt inc x hx ≤ x.saw := by
    have hle := h'.looked
    by_cases hreq : Hears inc confreq
    · rw [lookedAt_of_hears hreq]
      exact ⟨hle, Nat.le_refl _⟩
    · rw [lookedAt_of_not_hears hreq]
      exact ⟨Nat.le_refl _, hle⟩
  refine ⟨h'.steady, h'.sorted, h'.bounded, h'.seen, ?_, ?_, hlook.2, h'.sent, ?_, ?_, ?_,
    h'.termreqs, ?_, ?_⟩
  · refine act_pairwise ht h'.answered ?_ ?_
    · rw [List.pairwise_map]
      exact List.pairwise_of_forall fun _ _ => Nat.le_refl _
    · intro m hm m' hm'
      rw [hm'.saw]
      exact h'.later m hm
  · intro m hm
    rcases mem_act ht hm with hold | hnew
    · exact h'.later m hold
    · exact hnew.saw.le
  · intro hpos
    by_cases hreq : Hears inc confreq
    · obtain ⟨p, hp, hcode⟩ := Option.map_eq_some_iff.mp hreq
      obtain ⟨m, hm⟩ := hc p hp
      refine ⟨m.packet, p, ?_, hm.code ▸ hcode, hm.parsed, ?_⟩
      · rw [lookedAt_of_hears hreq, hm.saw]
        exact hm.sent
      · refine ht.sofar.heard.trans ?_
        rw [hp]
        exact if_pos hcode
    · rw [lookedAt_of_not_hears hreq] at hpos ⊢
      obtain ⟨q, p, hsent, hq, hparse, hheard⟩ := h'.last hpos
      refine ⟨q, p, hsent, hq, hparse, ht.sofar.heard.trans ?_⟩
      rw [← hheard]
      cases inc with
      | none => rfl
      | some p => exact if_neg fun hp => hreq (congrArg some hp)
  · intro m hm hcode
    rcases mem_act ht hm with hold | hnew
    · exact (h'.replies m hold hcode).trans hlook.1
    · rw [lookedAt_of_hears (hnew.replies hcode)]
      exact hnew.saw.le
  · intro hlive hack
    obtain ⟨heq, hall⟩ := h'.acks hlive hack
    have hseen : x.saw ≤ uses y.lcp.log := h'.seen
    have hle : uses y.lcp.log = lookedAt inc x hx := by omega
    refine ⟨hle.symm, ?_⟩
    intro m hm
    rcases mem_act ht hm with hold | hnew
    · exact hall m hold
    · rw [hnew.saw]
      omega
  · intro m hm hcode
    rcases mem_act ht hm with hold | hnew
    · exact (h'.termacks m hold hcode).imp_right fun hlt => hlt.trans_le hnext
    · rcases hnew.termacks hcode with hreq | hlt
      · obtain ⟨p, hp, hterm⟩ := Option.map_eq_some_iff.mp hreq
        obtain ⟨m', hm'⟩ := hc p hp
        left
        rw [hnew.saw, hm'.saw]
        exact hm'.termreqs hterm
      · exact .inr hlt
  · intro hslid
    exact (h'.slid hslid).trans_le hnext

/-- What holds of the two together. -/
structure Both (hx hy : Nat) (x y : Party σ) : Prop where
  asks : Held hx hy x y
  answers : Held hy hx y x
  one : Slid x.lcp → ¬ Slid y.lcp

theorem Both.symm (h : Both hx hy x y) : Both hy hx y x :=
  ⟨h.answers, h.asks, fun hy hx => h.one hx hy⟩

theorem next_of_live (hl : w.f.state.live = true) : w.next = uses w.log := if_pos hl

theorem Both.act (h : Both hx hy x y) (ht : Turn x.lcp inc w)
    (hc : ∀ p, inc = some p → ∃ m, Came hy x y m p) :
    Both (lookedAt inc x hx) hy (x.act w) y := by
  refine ⟨h.asks.act_asks h.answers ht hc, h.answers.act_answers ht hc, ?_⟩
  rintro ⟨hopened, hack⟩ hslid
  obtain ⟨hwas, -, -⟩ := (ht.slips hopened).resolve_left (by
    rw [show acked w.log = false from hack]
    nofun)
  cases hold : acked x.lcp.log with
  | false => exact h.one ⟨hwas, hold⟩ hslid
  | true =>
      have hlive : x.lcp.f.state.live = true := by rw [hwas]; rfl
      have heq := (h.asks.acks hlive hold).1
      have hlt := h.answers.slid hslid
      rw [next_of_live hlive] at hlt
      omega

/-- The oldest packet on the line to `x` comes in. -/
theorem Both.see (h : Both hx hy x y) {m : Flight} {rest : List Flight} (hline : y.line = m :: rest)
    (hfree : replyCode m.packet.code → lastSconfreq x.lcp.log = some m.packet.id →
      m.saw = uses x.lcp.log) :
    Both hx hy (x.see m) { y with line := rest } ∧
      ∀ p, parseHeader m.packet.octets = some p →
        Came hy (x.see m) { y with line := rest } m p := by
  obtain ⟨ha, hb, hone⟩ := h
  have hm : m ∈ y.line := hline ▸ List.mem_cons_self
  have hrest : ∀ m' ∈ rest, m' ∈ y.line := fun m' hm' => hline ▸ List.mem_cons_of_mem m hm'
  have hsorted := hb.sorted
  have hanswered := ha.answered
  rw [hline, List.pairwise_cons] at hsorted hanswered
  have hbound := hb.bounded m hm
  refine ⟨⟨⟨ha.steady, ha.sorted, ha.bounded, ha.seen, hanswered.2,
      fun m' hm' => ha.later m' (hrest m' hm'), ha.looked, ha.sent, ha.last,
      fun m' hm' => ha.replies m' (hrest m' hm'), ?_, ha.termreqs,
      fun m' hm' => ha.termacks m' (hrest m' hm'), ha.slid⟩,
    ⟨hb.steady, hsorted.2, ?_, hbound.2, hb.answered, ?_,
      hb.looked.trans hbound.1, fun m' hm' => hb.sent m' (hrest m' hm'), hb.last, hb.replies,
      hb.acks, fun m' hm' => hb.termreqs m' (hrest m' hm'), hb.termacks, hb.slid⟩, hone⟩,
    ?_⟩
  · intro hl hack
    obtain ⟨heq, hall⟩ := ha.acks hl hack
    exact ⟨heq, fun m' hm' => hall m' (hrest m' hm')⟩
  · intro m' hm'
    exact ⟨hsorted.1 m' hm', (hb.bounded m' (hrest m' hm')).2⟩
  · intro m' hm'
    exact (hb.later m' hm').trans hbound.1
  · intro p hp
    obtain ⟨hcode, hid, -⟩ := parseHeader_octets hp
    refine ⟨hcode, hp, rfl, hb.sent m hm, ?_, ?_, hanswered.1, ?_, ?_, ?_⟩
    · rw [hcode]
      exact ha.replies m hm
    · rw [hcode, hid]
      exact hfree
    · exact fun hl hack => (ha.acks hl hack).2 m hm
    · rw [hcode]
      exact hb.termreqs m hm
    · rw [hcode]
      exact ha.termacks m hm

/-- Packets on the line from `x` are lost. -/
theorem Both.lose (h : Both hx hy x y) {line : List Flight} (hsub : line.Sublist x.line) :
    Both hx hy { x with line := line } y := by
  obtain ⟨ha, hb, hone⟩ := h
  have hmem : ∀ m ∈ line, m ∈ x.line := fun m hm => hsub.subset hm
  refine ⟨⟨ha.steady, ha.sorted.sublist hsub, fun m hm => ha.bounded m (hmem m hm), ha.seen,
      ha.answered, ha.later, ha.looked, fun m hm => ha.sent m (hmem m hm), ha.last, ha.replies,
      ha.acks, fun m hm => ha.termreqs m (hmem m hm), ha.termacks, ha.slid⟩,
    ⟨hb.steady, hb.sorted, hb.bounded, hb.seen, hb.answered.sublist hsub,
      fun m hm => hb.later m (hmem m hm), hb.looked, hb.sent, hb.last,
      fun m hm => hb.replies m (hmem m hm), ?_, hb.termreqs,
      fun m hm => hb.termacks m (hmem m hm), hb.slid⟩, hone⟩
  intro hl hack
  obtain ⟨heq, hall⟩ := hb.acks hl hack
  exact ⟨heq, fun m hm => hall m (hmem m hm)⟩

end

end VxWorks.Ppp
