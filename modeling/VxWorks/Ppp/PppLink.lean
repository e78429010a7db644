import VxWorks.Ppp.Crossing

/-!
# A PPP link from end to end (`if_ppp.c`)

At one end packets are given to `pppoutput`, and `ppp_wrt_task` takes them off the queues,
compresses them and writes them out as frames. At the other end `pppinput` reads the octets and
`ppppktin` puts the packets on the queues of IP and of the users of the link. In between are an
escape for some octets, three headers that may be left out and a table at either end of the headers
of TCP connections.

All of this is undone, packet for packet, as long as the line takes what it is given, but for the
one thing that `sl_compress_tcp` gets wrong: `link_exact_iff`. Packets may overtake others that are
on the slower queue. Two that are on the same one stay in order.
-/

namespace VxWorks.Ppp

open VxWorks.Lib VxWorks.Netinet

/-- The packet that `ppp_dequeue` takes, the queue it is taken off and what is left. -/
def Out.pop (sc : Out) : Option (Bool × Mbufs × Out) :=
  match sc.fastq with
  | m :: q => some (true, m, { sc with fastq := q })
  | [] =>
      match sc.snd with
      | m :: q => some (false, m, { sc with snd := q })
      | [] => none

/-- The sender with a record of the packets that were put on a queue and of those that were taken
off. -/
structure Pipe where
  sc : Out
  came : List (Bool × Mbufs)
  taken : List (Bool × Mbufs)

/-- A packet is given to `pppoutput`, or the task goes through its loop once. -/
inductive PipeEvent where
  | output (ifp : PppIf) (space mbuf : Bool) (m0 : Mbufs) (dst : Dst)
  | wrt

def Pipe.step (tty : Tty) (s : Pipe) : PipeEvent → Pipe
  | .output ifp space mbuf m0 dst =>
      match pppoutput ifp s.sc space mbuf m0 dst with
      | none => s
      | some (fast, m) => { s with sc := s.sc.enqueue fast m, came := s.came ++ [(fast, m)] }
  | .wrt =>
      match wrtPacket tty s.sc with
      | none => s
      | some sc =>
          match s.sc.outm, s.sc.pop with
          | none, some (fast, m, _) => { s with sc, taken := s.taken ++ [(fast, m)] }
          | _, _ => { s with sc }

/-- What the receiver has got of it. -/
def Pipe.received (pool : Pool) (lead : Nat) (rx : Rx) (s : Pipe) : Rx :=
  rx.feed pool lead s.sc.line.octets

/-- The packets that were taken off the queues are those that arrived, and off each queue they were
taken in the order in which they came. -/
structure Pipe.Exactly (pool : Pool) (lead : Nat) (rx : Rx) (s : Pipe) : Prop where
  arrived : (s.received pool lead rx).inq = rx.inq ++ s.taken.map fun p => arrived p.2
  order : ∀ fast, s.came.filter (fun p => p.1 == fast) =
    s.taken.filter (fun p => p.1 == fast) ++ (s.sc.queue fast).map (Prod.mk fast)

/-- Only packets that get across are queued, and the line takes all that it is given. -/
def Pipe.Sound (tty : Tty) (mru : Int) (s : Pipe) : PipeEvent → Prop
  | .output ifp space mbuf m0 dst => ∀ p, pppoutput ifp s.sc space mbuf m0 dst = some p →
      Passable s.sc.compTcp mru p.2
  | .wrt => (s.step tty .wrt).sc.line.Full

/-- The next packet is not one that the sender gets wrong. -/
def Pipe.Fresh (s : Pipe) : PipeEvent → Prop
  | .output .. => True
  | .wrt => ∀ p, s.sc.pop = some p → ¬ StalePacket s.sc p.2.1

/-! ## The queues -/

section

variable {sc sc' : Out} {fast : Bool} {m : Mbufs} {tty : Tty}

theorem pppDequeue_eq (sc : Out) :
    pppDequeue sc = sc.pop.map fun p => pppDequeued p.2.2 p.2.1 := by
  unfold pppDequeue Out.pop
  cases hf : sc.fastq with
  | cons m q => rfl
  | nil =>
      cases hs : sc.snd with
      | cons m q => rfl
      | nil => rfl

/-- Everything but the queue is left as it is, and the packet was the first in the queue. -/
theorem pop_spec (h : sc.pop = some (fast, m, sc')) :
    (∀ b, sc.queue b = if b = fast then m :: sc'.queue b else sc'.queue b) ∧
      sc' = { sc with fastq := sc'.fastq, snd := sc'.snd } := by
  unfold Out.pop at h
  cases hf : sc.fastq with
  | cons m' q =>
      rw [hf] at h
      obtain ⟨rfl, rfl, rfl⟩ : true = fast ∧ m' = m ∧ { sc with fastq := q } = sc' := by
        simpa using h
      refine ⟨fun b => ?_, rfl⟩
      cases b <;> simp [Out.queue, hf]
  | nil =>
      rw [hf] at h
      cases hs : sc.snd with
      | nil =>
          rw [hs] at h
          cases h
      | cons m' q =>
          rw [hs] at h
          obtain ⟨rfl, rfl, rfl⟩ : false = fast ∧ m' = m ∧
              { sc with fastq := [], snd := q } = sc' := by
            simpa [hf] using h
          refine ⟨fun b => ?_, rfl⟩
          cases b <;> simp [Out.queue, hf, hs]

theorem queue_enqueue (sc : Out) (fast : Bool) (m : Mbufs) (b : Bool) :
    (sc.enqueue fast m).queue b = sc.queue b ++ if b = fast then [m] else [] := by
  cases b <;> cases fast <;> simp [Out.queue, Out.enqueue]

end

/-! ## One step -/

/-- The sender and the receiver agree on what is left to do. -/
structure Pipe.Agrees (pool : Pool) (lead : Nat) (rx : Rx) (s₀ s : Pipe) : Prop
    extends Pipe.Exactly pool lead rx s where
  outm : s.sc.outm = none
  asyncmap : s.sc.asyncmap = s₀.sc.asyncmap
  compTcp : s.sc.compTcp = s₀.sc.compTcp
  queued : ∀ fast, ∀ m ∈ s.sc.queue fast, Passable s.sc.compTcp rx.sc.mru m
  pkt : (s.received pool lead rx).pkt = rx.pkt
  ready : Ready (s.received pool lead rx).sc
  oneMbuf : OneMbuf (s.received pool lead rx).sc
  rejCompAc : (s.received pool lead rx).sc.rejCompAc = rx.sc.rejCompAc
  rasyncmap : (s.received pool lead rx).sc.rasyncmap = rx.sc.rasyncmap
  mru : (s.received pool lead rx).sc.mru = rx.sc.mru
  sync : Sync s.sc.comp (s.received pool lead rx).sc.comp

/-- What the line and the receiver are to be like. -/
structure LineOk (pool : Pool) (lead : Nat) (rx : Rx) (asyncmap : ExtAccm) : Prop where
  mbufs : PoolOk pool
  big : PoolBig pool rx.sc.mru
  room : maxHdr ≤ lead
  map : MapOk asyncmap
  rasyncmap : asyncmap 0 &&& rx.sc.rasyncmap = rx.sc.rasyncmap
  takes : Takes rx.pkt
  rejCompAc : rx.sc.rejCompAc = false
  mru : 0 ≤ rx.sc.mru ∧ rx.sc.mru ≤ 32760

section

variable {tty : Tty} {pool : Pool} {lead : Nat} {rx : Rx} {s₀ s : Pipe} {fast : Bool} {m : Mbufs}

theorem agrees_output (h : Pipe.Agrees pool lead rx s₀ s) {ifp : PppIf} {space mbuf : Bool}
    {m0 : Mbufs} {dst : Dst} (hg : s.Sound tty rx.sc.mru (.output ifp space mbuf m0 dst)) :
    Pipe.Agrees pool lead rx s₀ (s.step tty (.output ifp space mbuf m0 dst)) := by
  cases hout : pppoutput ifp s.sc space mbuf m0 dst with
  | none =>
      have hstep : s.step tty (.output ifp space mbuf m0 dst) = s := by rw [Pipe.step, hout]
      rwa [hstep]
  | some p =>
      obtain ⟨fast, m⟩ := p
      have hpass := hg _ hout
      have hstep : s.step tty (.output ifp space mbuf m0 dst) =
          { s with sc := s.sc.enqueue fast m, came := s.came ++ [(fast, m)] } := by
        rw [Pipe.step, hout]
      rw [hstep]
      obtain ⟨q₁, q₂, hsc⟩ : ∃ q₁ q₂,
          s.sc.enqueue fast m = { s.sc with fastq := q₁, snd := q₂ } := by
        cases fast
        · exact ⟨_, _, rfl⟩
        · exact ⟨_, _, rfl⟩
      have hqueue := queue_enqueue s.sc fast m
      rw [hsc] at hqueue ⊢
      refine { h with order := fun b => ?_, queued := fun b m' hm' => ?_ }
      · dsimp only
        rw [hqueue, List.filter_append, h.order, List.map_append, List.append_assoc]
        cases b <;> cases fast <;> simp
      · dsimp only at hm'
        rw [hqueue] at hm'
        rcases List.mem_append.mp hm' with hm' | hm'
        · exact h.queued b m' hm'
        · split at hm'
          · rw [List.mem_singleton.mp hm']
            exact hpass
          · cases hm'

/-- One packet goes over the line: `s` is before, `s'` after, `sc` what the receiver is then. -/
structure Pipe.Wrote (pool : Pool) (lead : Nat) (rx : Rx) (s s' : Pipe) (fast : Bool) (m : Mbufs)
    (sc : In) (hi lo : UInt8) (out : List UInt8) : Prop where
  crosses : Crosses s.sc (s.received pool lead rx).sc.comp rx.pkt lead rx.sc.mru m hi lo out
    s'.sc.comp
  came : s'.came = s.came
  taken : s'.taken = s.taken ++ [(fast, m)]
  queue : ∀ b, s.sc.queue b = if b = fast then m :: s'.sc.queue b else s'.sc.queue b
  outm : s'.sc.outm = none
  asyncmap : s'.sc.asyncmap = s.sc.asyncmap
  compTcp : s'.sc.compTcp = s.sc.compTcp
  delivered : ∃ ys, Delivered (s.received pool lead rx).sc sc ys
  oneMbuf : OneMbuf sc
  received : s'.received pool lead rx =
    { sc := { sc with comp := (ppppktin { rx.pkt with comp := (s.received pool lead rx).sc.comp }
        lead (pppAllstations :: pppUi :: hi :: lo :: out) []).2 }
      pkt := rx.pkt
      inq := (s.received pool lead rx).inq ++
        (queued rx.pkt (s.received pool lead rx).sc.comp lead hi lo out).toList }

theorem wrt_cases (hok : LineOk pool lead rx s₀.sc.asyncmap) (h : Pipe.Agrees pool lead rx s₀ s)
    (hg : s.Sound tty rx.sc.mru .wrt) :
    (s.sc.pop = none ∧ s.step tty .wrt = s) ∨
      ∃ fast m sc' sc hi lo out, s.sc.pop = some (fast, m, sc') ∧
        Pipe.Wrote pool lead rx s (s.step tty .wrt) fast m sc hi lo out := by
  have hd := pppDequeue_eq s.sc
  cases hpop : s.sc.pop with
  | none =>
      rw [hpop] at hd
      have hw : wrtPacket tty s.sc = none := by rw [wrtPacket, h.outm, hd]; rfl
      exact .inl ⟨rfl, by rw [Pipe.step, hw]⟩
  | some p =>
      obtain ⟨fast, m, sc'⟩ := p
      rw [hpop] at hd
      obtain ⟨hqueue, hsame⟩ := pop_spec hpop
      have hpass : Passable s.sc.compTcp rx.sc.mru m :=
        h.queued fast m (by rw [hqueue, if_pos rfl]; exact List.mem_cons_self)
      obtain ⟨hi, lo, out, comp, hcross⟩ := crosses h.sync hpass hok.takes hok.room
      obtain ⟨hs, tl, next, hshrunk, rfl, hoff⟩ := hcross.off
      have hd' : pppDequeue s.sc = some ((hs ++ tl) :: next, { sc' with comp }) := by
        rw [hd, Option.map_some, hsame]
        show some ((pppDequeued s.sc m).1, { s.sc with
          fastq := sc'.fastq, snd := sc'.snd, comp := (pppDequeued s.sc m).2.comp }) = _
        rw [hoff]
      obtain ⟨outfcs, line, hw⟩ := wrtPacket_next tty h.outm hd'
      have hstep : s.step tty .wrt = { s with
          sc := { sc' with comp, outm := none, outfcs, line }
          taken := s.taken ++ [(fast, m)] } := by
        rw [Pipe.step, hw, h.outm, hpop]
      have hfull : Line.Full line := by
        rw [Pipe.Sound, hstep] at hg
        exact hg
      obtain ⟨-, -, hline⟩ := wrtPacket_full h.outm hd' hw hfull
      have hasync : sc'.asyncmap = s.sc.asyncmap := by rw [hsame]
      have hcomp : sc'.compTcp = s.sc.compTcp := by rw [hsame]
      have hmru := h.mru
      obtain ⟨sc₁, hdel, hone, -, hfeed⟩ := @rx_frame pool lead
        (s.received pool lead rx) s.sc.asyncmap hi lo hs tl next (tty.nwrite s.sc.line.length == 0)
        hok.mbufs (by rw [hmru]; exact hok.big) (by rw [h.asyncmap]; exact hok.map)
        (by rw [h.asyncmap, h.rasyncmap]; exact hok.rasyncmap) h.ready h.oneMbuf
        (by simp [h.rejCompAc, hok.rejCompAc]) hcross.even hcross.odd hshrunk
        (by rw [hmru]; exact hcross.fits) (by rw [hmru]; exact hok.mru.2)
      refine .inr ⟨fast, m, sc', sc₁, hi, lo, tl ++ next.flatten, rfl, ?_⟩
      rw [hstep]
      refine ⟨hcross, rfl, rfl, fun b => hqueue b, rfl, hasync, hcomp, ⟨_, hdel⟩, hone, ?_⟩
      rw [h.pkt] at hfeed
      show rx.feed pool lead (Line.octets line) = _
      rw [show Line.octets line = _ from hline, rxFeed_append]
      exact hfeed

theorem agrees_wrote {s' : Pipe} {sc : In} {hi lo : UInt8} {out : List UInt8}
    (h : Pipe.Agrees pool lead rx s₀ s) (hw : Pipe.Wrote pool lead rx s s' fast m sc hi lo out)
    (hstale : ¬ StalePacket s.sc m) : Pipe.Agrees pool lead rx s₀ s' := by
  obtain ⟨ys, hdel⟩ := hw.delivered
  have hrx := hw.received
  have hin := hw.crosses.arrives.mpr hstale
  have hsync := hw.crosses.sync hstale
  have hexactly : Pipe.Exactly pool lead rx s' := by
    refine ⟨?_, fun b => ?_⟩
    · rw [hrx, hw.taken, List.map_append, ← List.append_assoc, ← h.arrived, hin]
      rfl
    · rw [hw.came, hw.taken, h.order, hw.queue, List.filter_append, List.append_assoc]
      cases b <;> cases fast <;> simp
  refine { hexactly with
    outm := hw.outm
    asyncmap := hw.asyncmap.trans h.asyncmap
    compTcp := hw.compTcp.trans h.compTcp
    queued := fun b m' hm' => ?_
    pkt := by rw [hrx]
    ready := by rw [hrx]; exact ⟨hdel.flush, hdel.escaped, hdel.ilen⟩
    oneMbuf := by
      rw [hrx]
      exact ⟨hw.oneMbuf.full, hw.oneMbuf.mc, hw.oneMbuf.pos, hw.oneMbuf.ilen⟩
    rejCompAc := by rw [hrx]; exact hdel.rejCompAc.trans h.rejCompAc
    rasyncmap := by rw [hrx]; exact hdel.rasyncmap.trans h.rasyncmap
    mru := by rw [hrx]; exact hdel.mru.trans h.mru
    sync := by rw [hrx]; exact hsync }
  rw [hw.compTcp]
  refine h.queued b m' ?_
  rw [hw.queue]
  split
  · exact List.mem_cons_of_mem _ hm'
  · exact hm'

theorem agrees_wrt (hok : LineOk pool lead rx s₀.sc.asyncmap)
    (h : Pipe.Agrees pool lead rx s₀ s) (hg : s.Sound tty rx.sc.mru .wrt) (hfresh : s.Fresh .wrt) :
    Pipe.Agrees pool lead rx s₀ (s.step tty .wrt) := by
  rcases wrt_cases hok h hg with hstill | hwrote
  · rw [hstill.2]
    exact h
  · obtain ⟨fast, m, sc', sc, hi, lo, out, hpop, hw⟩ := hwrote
    exact agrees_wrote h hw (hfresh (fast, m, sc') hpop)

/-- What the sender gets wrong does not arrive as it was. -/
theorem not_exactly_wrote {s' : Pipe} {sc : In} {hi lo : UInt8} {out : List UInt8}
    (h : Pipe.Agrees pool lead rx s₀ s) (hw : Pipe.Wrote pool lead rx s s' fast m sc hi lo out)
    (hstale : StalePacket s.sc m) : ¬ Pipe.Exactly pool lead rx s' := by
  intro hexactly
  have harrived := hexactly.arrived
  rw [hw.received, hw.taken, List.map_append, ← List.append_assoc, ← h.arrived] at harrived
  have hone := List.append_cancel_left harrived
  have hin : queued rx.pkt (s.received pool lead rx).sc.comp lead hi lo out = some (arrived m) := by
    revert hone
    cases queued rx.pkt (s.received pool lead rx).sc.comp lead hi lo out with
    | none => exact fun hone => by cases hone
    | some x => exact fun hone => congrArg some (List.cons.inj hone).1
  exact hw.crosses.arrives.mp hin hstale

end

/-! ## Runs -/

/-- The sender after `pppopen` and any settings. -/
def Pipe.start (compProt compAc compTcp noTcpCcid : Bool) (is : List MapIoctl) : Pipe :=
  ⟨(Sending.start compProt compAc compTcp noTcpCcid (is.foldl ppptioctl pppopenMap)).sc, [], []⟩

/-- The receiver after `pppopen` and any settings. -/
def Rx.start (rasyncmap : UInt32) (mru : Int) (pkt : PktIn) : Rx :=
  ⟨.start false rasyncmap mru, pkt, []⟩

/-- All along a run the packets that arrive are those that were taken off the queues, just when none
of these is one that `sl_compress_tcp` gets wrong. -/
theorem link_exact_iff (tty : Tty) (pool : Pool) (lead : Nat)
    (compProt compAc compTcp noTcpCcid : Bool) (is : List MapIoctl) (rasyncmap : UInt32) (mru : Int)
    (pkt : PktIn) (hok : LineOk pool lead (.start rasyncmap mru pkt) (is.foldl ppptioctl pppopenMap))
    (es : List PipeEvent)
    (hsound : Guarded (Pipe.step tty) (Pipe.Sound tty mru)
      (.start compProt compAc compTcp noTcpCcid is) es) :
    Always (Pipe.step tty) (Pipe.Exactly pool lead (.start rasyncmap mru pkt))
        (.start compProt compAc compTcp noTcpCcid is) es ↔
      Guarded (Pipe.step tty) Pipe.Fresh (.start compProt compAc compTcp noTcpCcid is) es := by
  have hstart : Pipe.Agrees pool lead (.start rasyncmap mru pkt)
      (.start compProt compAc compTcp noTcpCcid is)
      (.start compProt compAc compTcp noTcpCcid is) :=
    { arrived := rfl
      order := fun b => by cases b <;> rfl
      outm := rfl
      asyncmap := rfl
      compTcp := rfl
      queued := fun b m hm => by cases b <;> cases hm
      pkt := rfl
      ready := ⟨rfl, rfl, rfl⟩
      oneMbuf := ⟨rfl, .inl rfl, Int.le_refl 0, fun _ => by
        show (0 : Int) ≤ mru + 6
        have hmru : 0 ≤ mru := hok.mru.1
        omega⟩
      rejCompAc := rfl
      rasyncmap := rfl
      mru := rfl
      sync := Sync.init }
  refine always_iff_guarded _ (Pipe.Sound tty mru) hstart (fun t ht => ht.toExactly) ?_ ?_ hsound
  · intro t e ht hg hfresh
    cases e with
    | output ifp space mbuf m0 dst => exact agrees_output ht hg
    | wrt => exact agrees_wrt hok ht hg hfresh
  · intro t e ht hg hbad
    cases e with
    | output ifp space mbuf m0 dst => exact absurd trivial hbad
    | wrt =>
        rcases wrt_cases hok ht hg with hstill | hwrote
        · exact absurd (fun p hp => by rw [hstill.1] at hp; cases hp) hbad
        · obtain ⟨fast, m, sc', sc, hi, lo, out, hpop, hw⟩ := hwrote
          refine not_exactly_wrote ht hw ?_
          by_contra hstale
          refine hbad fun p hp => ?_
          obtain rfl := Option.some.inj (hp.symm.trans hpop)
          exact hstale

/-- A TCP packet is queued and sent with its whole header. -/
theorem link_exact_tcp :
    Always (Pipe.step ⟨fun _ n => some n, fun _ => 0⟩)
      (Pipe.Exactly (fun _ _ => some 2048) 128 (.start 0 1500 .up))
      (.start true true true false [])
      [.output ⟨true, true, fun _ => false, fun _ => 50⟩ true true [nextPkt.octets] .inet, .wrt] := by
  have hout : ∀ p, pppoutput ⟨true, true, fun _ => false, fun _ => 50⟩
      (Pipe.start true true true false []).sc true true [nextPkt.octets] .inet = some p →
        p = (false, [[0xff, 0x03, 0, 0x21] ++ nextPkt.octets]) := by
    intro p hp
    have heq : pppoutput ⟨true, true, fun _ => false, fun _ => 50⟩
        (Pipe.start true true true false []).sc true true [nextPkt.octets] .inet =
          some (false, [[0xff, 0x03, 0, 0x21] ++ nextPkt.octets]) := by decide +kernel
    exact (Option.some.inj (heq.symm.trans hp)).symm
  have hno : (slLocate slCompressInit (.of nextPkt.octets)).map (fun r => r.1) = some false := by
    decide +kernel
  refine (link_exact_iff ⟨fun _ n => some n, fun _ => 0⟩ (fun _ _ => some 2048) 128 true true true
    false [] 0 1500 .up ⟨fun _ _ => ⟨2048, rfl, by decide⟩, fun _ => ⟨2048, rfl, by decide⟩,
      Nat.le_refl _, mapOk_ioctls [], by decide, ⟨rfl, rfl, rfl, fun _ => rfl, fun _ => rfl⟩, rfl,
      by decide⟩ _ ?_).mpr ?_
  · refine guarded_cons ?_ (guarded_cons (show Line.Full _ by decide +kernel) guarded_nil)
    intro p hp
    obtain rfl := hout p hp
    refine ⟨⟨⟨_, _, _, _, rfl, rfl, rfl⟩, by decide, by decide⟩, by decide, ?_⟩
    refine fun _ _ _ => .inr ?_
    exact ⟨nextPkt, rfl, by decide⟩
  · refine guarded_cons trivial (guarded_cons ?_ guarded_nil)
    intro p hp hstale
    have hfirst : p.2.1 = [[0xff, 0x03, 0, 0x21] ++ nextPkt.octets] := by
      cases hp
      rfl
    obtain ⟨-, cs, tx', hloc, -⟩ := hstale.2.2.2.2
    rw [hfirst] at hloc
    have hfound := congrArg (Option.map fun r => r.1) hloc
    cases hno.symm.trans hfound

end VxWorks.Ppp
