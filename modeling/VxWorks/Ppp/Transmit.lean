import VxWorks.Lib.Run
import VxWorks.Ppp.IfPpp

/-!
# The transmitter and its line

A frame is an opening flag if the line was idle, the octets of the packet with
escapes, the check sequence and a closing flag. As long as every write takes all
that it is given, what the line has got is one frame after the other, with
nothing left out and nothing twice: `line_in_order`. The loops are written so as
to go on where a short write left off, but none of them gets it right:

* octets that need no escape are written again from the first of them,
* the opening flag, the check sequence and the closing flag are written once,
  whatever becomes of it,
* and after a packet that could not be finished `sc_outm` is cleared like after
  one that was, and the rest of it is gone.
-/

namespace VxWorks.Ppp

open VxWorks.Lib

/-! ## Frames -/

/-- The octets of a packet as they go over the line. -/
def stuffAll (asyncmap : ExtAccm) (cs : List UInt8) : List UInt8 := cs.flatMap (stuff asyncmap)

theorem stuffAll_append (asyncmap : ExtAccm) (cs ds : List UInt8) :
    stuffAll asyncmap (cs ++ ds) = stuffAll asyncmap cs ++ stuffAll asyncmap ds :=
  List.flatMap_append

theorem stuffAll_cons (asyncmap : ExtAccm) (c : UInt8) (cs : List UInt8) :
    stuffAll asyncmap (c :: cs) = stuff asyncmap c ++ stuffAll asyncmap cs := List.flatMap_cons

/-- A frame, with or without an opening flag. -/
def frame (asyncmap : ExtAccm) (idle : Bool) (m : Mbufs) : List UInt8 :=
  (if idle then [pppFlag] else []) ++
    (stuffAll asyncmap m.flatten ++ endseq asyncmap (pppfcs pppInitfcs m.flatten))

theorem pppfcs_append (fcs : UInt16) (cs ds : List UInt8) :
    pppfcs fcs (cs ++ ds) = pppfcs (pppfcs fcs cs) ds := List.foldl_append

/-! ## Writes -/

/-- The device took all that it was given. -/
def Write.Full (w : Write) : Prop := w.took.length = w.asked

instance (w : Write) : Decidable w.Full := inferInstanceAs (Decidable (_ = _))

/-- So it did in every write. -/
def Line.Full (line : Line) : Prop := ∀ w ∈ line, w.Full

instance (line : Line) : Decidable line.Full := inferInstanceAs (Decidable (∀ w ∈ line, w.Full))

section

variable {tty : Tty} {asyncmap : ExtAccm} {line line₁ : Line}

theorem Line.Full.of_prefix (h : line₁.Full) (hp : line <+: line₁) : line.Full :=
  fun w hw => h w (hp.subset hw)

theorem octets_append (line line₁ : Line) :
    Line.octets (line ++ line₁) = line.octets ++ line₁.octets := List.flatMap_append

theorem prefix_put (tty : Tty) (line : Line) (buf : List UInt8) :
    line <+: (tty.put line buf).2 := by
  unfold Tty.put
  split
  · exact List.prefix_append _ _
  · exact List.prefix_append _ _

theorem put_full {buf : List UInt8} (hne : buf ≠ []) (h : (tty.put line buf).2.Full) :
    tty.put line buf = (some buf.length, line ++ [⟨buf.length, buf⟩]) := by
  have hpos := List.length_pos_iff.mpr hne
  unfold Tty.put at h ⊢
  split at h
  · have hw : 0 = buf.length := h ⟨buf.length, []⟩ (by simp)
    omega
  · next k _ =>
      have hw : (buf.take k).length = buf.length := h ⟨buf.length, buf.take k⟩ (by simp)
      rw [List.length_take] at hw
      rw [hw, List.take_of_length_le (by omega)]

/-- What is on the line after such a write. -/
theorem octets_put_full {buf : List UInt8} (hne : buf ≠ []) (h : (tty.put line buf).2.Full) :
    (tty.put line buf).2.octets = line.octets ++ buf := by
  rw [put_full hne h]
  simp [Line.octets]

/-! The line only grows. -/

theorem prefix_sendRun (tty : Tty) (start : List UInt8) (fuel nleft : Nat) (line : Line) :
    line <+: (sendRun tty start fuel nleft line).2 := by
  induction fuel generalizing nleft line with
  | zero => exact List.prefix_refl _
  | succ fuel ih =>
      have hput := prefix_put tty line start
      unfold sendRun
      split
      · exact List.prefix_refl _
      dsimp only
      split
      · exact hput
      · exact hput
      · exact hput.trans (ih _ _)

theorem prefix_sendClear (tty : Tty) (run : List UInt8) (line : Line) :
    line <+: (sendClear tty run line).2 := prefix_sendRun ..

theorem prefix_sendEscape_first (tty : Tty) (c : UInt8) (line : Line) :
    (tty.put line [pppEscape]).2 <+: (sendEscape tty c line).2 := by
  rw [sendEscape]
  dsimp only
  split
  · exact List.prefix_refl _
  · exact prefix_put ..

theorem prefix_sendEscape (tty : Tty) (c : UInt8) (line : Line) :
    line <+: (sendEscape tty c line).2 :=
  (prefix_put ..).trans (prefix_sendEscape_first ..)

theorem prefix_sendMbuf (tty : Tty) (asyncmap : ExtAccm) (fuel : Nat) (start : List UInt8)
    (line : Line) : line <+: (sendMbuf tty asyncmap fuel start line).2 := by
  induction fuel generalizing start line with
  | zero => exact List.prefix_refl _
  | succ fuel ih =>
      unfold sendMbuf
      split
      · exact List.prefix_refl _
      dsimp only
      refine (prefix_sendClear tty (clearRun asyncmap start) line).trans ?_
      split
      · exact List.prefix_refl _
      split
      · exact List.prefix_refl _
      next c rest _ =>
      refine (prefix_sendEscape tty c _).trans ?_
      split
      · exact ih _ _
      · exact List.prefix_refl _

theorem prefix_sendChain (tty : Tty) (asyncmap : ExtAccm) (m : List UInt8) (next : Mbufs)
    (outfcs : UInt16) (line : Line) :
    line <+: (sendChain tty asyncmap m next outfcs line).2.2 := by
  induction next generalizing m outfcs line with
  | nil =>
      have h := prefix_sendMbuf tty asyncmap m.length m line
      unfold sendChain
      dsimp only
      split
      · exact h
      · exact h.trans (prefix_put ..)
  | cons m2 next ih =>
      have h := prefix_sendMbuf tty asyncmap m.length m line
      unfold sendChain
      dsimp only
      split
      · exact h
      · exact h.trans (ih _ _ _)

/-! What it gets if every write takes all. -/

theorem sendClear_cons (tty : Tty) (c : UInt8) (cs : List UInt8) (line : Line) :
    sendClear tty (c :: cs) line =
      match (tty.put line (c :: cs)).1 with
      | none => ((c :: cs).length, (tty.put line (c :: cs)).2)
      | some 0 => ((c :: cs).length, (tty.put line (c :: cs)).2)
      | some cc => sendRun tty (c :: cs) cs.length ((c :: cs).length - min cc (c :: cs).length)
          (tty.put line (c :: cs)).2 := rfl

theorem sendClear_full {run : List UInt8} (h : (sendClear tty run line).2.Full) :
    (sendClear tty run line).1 = 0 ∧
      (sendClear tty run line).2.octets = line.octets ++ run := by
  cases run with
  | nil => simp [sendClear, sendRun]
  | cons c cs =>
      have hfirst : (tty.put line (c :: cs)).2 <+: (sendClear tty (c :: cs) line).2 := by
        rw [sendClear_cons]
        split
        · exact List.prefix_refl _
        · exact List.prefix_refl _
        · exact prefix_sendRun ..
      have hput := put_full (List.cons_ne_nil c cs) (h.of_prefix hfirst)
      rw [sendClear_cons, hput]
      cases cs <;> simp [sendRun, Line.octets]

theorem sendEscape_full {c : UInt8} (h : (sendEscape tty c line).2.Full) :
    (sendEscape tty c line).1 = true ∧
      (sendEscape tty c line).2.octets = line.octets ++ [pppEscape, c ^^^ pppTrans] := by
  have hput := put_full (List.cons_ne_nil _ _) (h.of_prefix (prefix_sendEscape_first tty c line))
  rw [sendEscape] at h ⊢
  rw [hput] at h ⊢
  have hput' := put_full (List.cons_ne_nil _ _) h
  simp only [List.length_cons, List.length_nil] at hput' ⊢
  simp [hput', Line.octets]

theorem clearRun_cons (asyncmap : ExtAccm) (c : UInt8) (cs : List UInt8) :
    clearRun asyncmap (c :: cs) =
      if escapeP asyncmap c then [] else c :: clearRun asyncmap cs := by
  rw [clearRun]
  rw [List.takeWhile_cons]
  cases escapeP asyncmap c <;> rfl

theorem stuffAll_clearRun (asyncmap : ExtAccm) (start : List UInt8) :
    stuffAll asyncmap (clearRun asyncmap start) = clearRun asyncmap start := by
  induction start with
  | nil => rfl
  | cons c cs ih =>
      rw [clearRun_cons]
      split
      · rfl
      · next hc =>
          rw [stuffAll_cons, ih, stuff, if_neg hc]
          rfl

/-- After the run the mbuf is at its end, or there is an octet that needs an
escape. -/
theorem drop_clearRun (asyncmap : ExtAccm) (start : List UInt8) :
    clearRun asyncmap start = start ∧ start.drop (clearRun asyncmap start).length = [] ∨
      ∃ c rest, start.drop (clearRun asyncmap start).length = c :: rest ∧
        start = clearRun asyncmap start ++ c :: rest ∧ escapeP asyncmap c = true := by
  induction start with
  | nil => exact .inl ⟨rfl, rfl⟩
  | cons c cs ih =>
      rw [clearRun_cons]
      split
      · next hc => exact .inr ⟨c, cs, rfl, rfl, hc⟩
      · rcases ih with ⟨hrun, hnil⟩ | ⟨d, rest, hdrop, hsplit, hd⟩
        · exact .inl ⟨by rw [hrun], hnil⟩
        · exact .inr ⟨d, rest, hdrop, congrArg (c :: ·) hsplit, hd⟩

theorem sendMbuf_full {fuel : Nat} {start : List UInt8} (hf : start.length ≤ fuel)
    (h : (sendMbuf tty asyncmap fuel start line).2.Full) :
    (sendMbuf tty asyncmap fuel start line).1 = [] ∧
      (sendMbuf tty asyncmap fuel start line).2.octets =
        line.octets ++ stuffAll asyncmap start := by
  induction fuel generalizing start line with
  | zero =>
      obtain rfl := List.eq_nil_of_length_eq_zero (Nat.le_zero.mp hf)
      simp [sendMbuf, stuffAll]
  | succ fuel ih =>
      unfold sendMbuf at h ⊢
      by_cases hne : start = []
      · subst hne
        simp [stuffAll]
      rw [if_neg hne] at h ⊢
      dsimp only at h ⊢
      rcases drop_clearRun asyncmap start with ⟨hrun, hnil⟩ | ⟨c, rest, hdrop, hsplit, hc⟩
      · -- the run is the whole mbuf
        rw [hnil] at h ⊢
        have hfull : (sendClear tty (clearRun asyncmap start) line).2.Full := by
          split at h
          · exact h
          · exact h
        obtain ⟨h₀, hline⟩ := sendClear_full hfull
        rw [if_neg (not_not.mpr h₀)]
        exact ⟨rfl, by rw [hline, ← stuffAll_clearRun, hrun]⟩
      · rw [hdrop] at h ⊢
        dsimp only at h ⊢
        have hclear : (sendClear tty (clearRun asyncmap start) line).2.Full := by
          refine h.of_prefix ?_
          split
          · exact List.prefix_refl _
          · refine (prefix_sendEscape tty c _).trans ?_
            split
            · exact prefix_sendMbuf ..
            · exact List.prefix_refl _
        obtain ⟨h₀, hline⟩ := sendClear_full hclear
        rw [if_neg (not_not.mpr h₀)] at h ⊢
        generalize sendClear tty (clearRun asyncmap start) line = r at *
        have hescape : (sendEscape tty c r.2).2.Full := by
          refine h.of_prefix ?_
          split
          · exact prefix_sendMbuf ..
          · exact List.prefix_refl _
        obtain ⟨h₁, hline'⟩ := sendEscape_full hescape
        rw [if_pos h₁] at h ⊢
        have hlen : rest.length ≤ fuel := by
          rw [hsplit, List.length_append, List.length_cons] at hf
          omega
        obtain ⟨hrem, hall⟩ := ih hlen h
        have hstuff : stuffAll asyncmap start =
            clearRun asyncmap start ++ ([pppEscape, c ^^^ pppTrans] ++ stuffAll asyncmap rest) := by
          calc stuffAll asyncmap start
              = stuffAll asyncmap (clearRun asyncmap start ++ c :: rest) := congrArg _ hsplit
            _ = clearRun asyncmap start ++ (stuff asyncmap c ++ stuffAll asyncmap rest) := by
                rw [stuffAll_append, stuffAll_cons, stuffAll_clearRun]
            _ = _ := by rw [stuff, if_pos hc]
        refine ⟨hrem, ?_⟩
        rw [hall, hline', hline, hstuff]
        simp only [List.append_assoc]

theorem endseq_ne_nil (asyncmap : ExtAccm) (outfcs : UInt16) : endseq asyncmap outfcs ≠ [] := by
  simp [endseq]

/-- The first mbuf of a chain is sent to its end. -/
theorem sendChain_first {m : List UInt8} {next : Mbufs} {outfcs : UInt16}
    (h : (sendChain tty asyncmap m next outfcs line).2.2.Full) :
    (sendMbuf tty asyncmap m.length m line).1 = [] ∧
      (sendMbuf tty asyncmap m.length m line).2.octets = line.octets ++ stuffAll asyncmap m := by
  refine sendMbuf_full (Nat.le_refl _) (h.of_prefix ?_)
  unfold sendChain
  dsimp only
  split
  · exact List.prefix_refl _
  · split
    · exact prefix_put ..
    · exact prefix_sendChain ..

theorem sendChain_full {m : List UInt8} {next : Mbufs} {outfcs : UInt16}
    (h : (sendChain tty asyncmap m next outfcs line).2.2.Full) :
    (sendChain tty asyncmap m next outfcs line).2.2.octets =
      line.octets ++ (stuffAll asyncmap (m ++ next.flatten) ++
        endseq asyncmap (pppfcs outfcs next.flatten)) := by
  induction next generalizing m outfcs line with
  | nil =>
      obtain ⟨hrem, hline⟩ := sendChain_first h
      unfold sendChain at h ⊢
      dsimp only at h ⊢
      rw [if_neg (not_not.mpr hrem)] at h ⊢
      have hput := octets_put_full (endseq_ne_nil asyncmap outfcs) h
      simp [hput, hline, pppfcs]
  | cons m2 next ih =>
      obtain ⟨hrem, hline⟩ := sendChain_first h
      unfold sendChain at h ⊢
      dsimp only at h ⊢
      rw [if_neg (not_not.mpr hrem)] at h ⊢
      rw [ih h, hline, List.flatten_cons, pppfcs_append, stuffAll_append,
        stuffAll_append]
      simp only [stuffAll_append, List.append_assoc]

/-- A packet that `ppp_dequeue` returned is sent as one frame. -/
theorem sendPacket_full (sc : Out) {m : List UInt8} {next : Mbufs}
    (hfcs : sc.outfcs = pppfcs pppInitfcs m)
    (h : (sendPacket tty sc (m :: next)).line.Full) :
    (sendPacket tty sc (m :: next)).line.octets =
      sc.line.octets ++ frame sc.asyncmap false (m :: next) := by
  have hchain := sendChain_full h
  have hwhole : pppfcs pppInitfcs (m :: next).flatten = pppfcs sc.outfcs next.flatten := by
    rw [List.flatten_cons, pppfcs_append, hfcs]
  rw [frame, hwhole]
  exact hchain

theorem prefix_sendPacket (tty : Tty) (sc : Out) (m : Mbufs) :
    sc.line <+: (sendPacket tty sc m).line := prefix_sendChain ..

/-- What taking a packet off a queue leaves alone. -/
theorem pppDequeue_frame {sc sc' : Out} {m : Mbufs} (h : pppDequeue sc = some (m, sc')) :
    (∃ first next, m = first :: next) ∧ sc'.line = sc.line ∧ sc'.asyncmap = sc.asyncmap := by
  unfold pppDequeue at h
  split at h
  · cases h
    exact ⟨⟨_, _, rfl⟩, rfl, rfl⟩
  · split at h
    · cases h
      exact ⟨⟨_, _, rfl⟩, rfl, rfl⟩
    · cases h

/-- One packet off a queue is one frame on the line. -/
theorem wrtPacket_full {sc sc' sc'' : Out} {m : Mbufs} (hout : sc.outm = none)
    (hd : pppDequeue sc = some (m, sc')) (hw : wrtPacket tty sc = some sc'')
    (h : sc''.line.Full) :
    sc''.outm = none ∧ sc''.asyncmap = sc.asyncmap ∧
      sc''.line.octets = sc.line.octets ++
        frame sc.asyncmap (tty.nwrite sc.line.length == 0) m := by
  obtain ⟨⟨first, next, rfl⟩, hline, hmap⟩ := pppDequeue_frame hd
  unfold wrtPacket at hw
  rw [hout, hd] at hw
  dsimp only at hw
  rw [hline] at hw
  obtain rfl := Option.some.inj hw
  refine ⟨rfl, hmap, ?_⟩
  split at h
  · next hidle =>
      have hgrow := prefix_sendPacket tty { sc' with
        line := (tty.put sc.line [pppFlag]).2, outfcs := pppfcs pppInitfcs first } (first :: next)
      have hput := octets_put_full (List.cons_ne_nil _ _) (h.of_prefix hgrow)
      have hpkt := sendPacket_full { sc' with
        line := (tty.put sc.line [pppFlag]).2, outfcs := pppfcs pppInitfcs first } rfl h
      rw [if_pos hidle, hidle]
      refine hpkt.trans ?_
      simp [hput, hmap, frame]
  · next hidle =>
      have hpkt := sendPacket_full { sc' with
        line := sc.line, outfcs := pppfcs pppInitfcs first } rfl h
      rw [if_neg hidle, beq_false_of_ne hidle]
      refine hpkt.trans ?_
      simp only [hmap]

end

/-! ## Runs -/

/-- The transmitter with a record of what was taken off the queues: each packet as
`ppp_dequeue` returned it, and whether the line was idle then. -/
structure Sending where
  sc : Out
  sent : List (Bool × Mbufs)

/-- A packet is queued, or the task goes through its loop once. -/
inductive OutEvent where
  | enqueue (fast : Bool) (m : Mbufs)
  | wrt

def Sending.step (tty : Tty) (s : Sending) : OutEvent → Sending
  | .enqueue true m => { s with sc := { s.sc with fastq := s.sc.fastq ++ [m] } }
  | .enqueue false m => { s with sc := { s.sc with snd := s.sc.snd ++ [m] } }
  | .wrt =>
      match wrtPacket tty s.sc with
      | none => s
      | some sc =>
          match s.sc.outm, pppDequeue s.sc with
          | none, some (m, _) => ⟨sc, s.sent ++ [(tty.nwrite s.sc.line.length == 0, m)]⟩
          | _, _ => ⟨sc, s.sent⟩

/-- The frames of the packets that were taken off the queues, in order. -/
def Sending.stream (s : Sending) : List UInt8 :=
  (s.sent.map fun p => frame s.sc.asyncmap p.1 p.2).flatten

/-- There is nothing left to send. -/
def Sending.Drained (s : Sending) : Prop :=
  s.sc.fastq = [] ∧ s.sc.snd = [] ∧ s.sc.outm = none

/-- What the line got is a beginning of the frames, at whatever moment one looks,
and all of them in the end. -/
def Sending.InOrder (s : Sending) : Prop :=
  (∀ line : Line, line <+: s.sc.line → line.octets <+: s.stream) ∧
    (s.Drained → s.sc.line.octets = s.stream)

/-- The transmitter after `pppopen` and any settings. -/
def Sending.start (compProt compAc compTcp noTcpCcid : Bool) (asyncmap : ExtAccm) : Sending :=
  ⟨⟨compProt, compAc, compTcp, noTcpCcid, asyncmap, Netinet.slCompressInit, [], [], none, 0, []⟩,
    []⟩

/-- All that the line got is the frames of what was taken off the queues. -/
structure Exact (s : Sending) : Prop where
  outm : s.sc.outm = none
  line : s.sc.line.octets = s.stream

theorem Exact.inOrder {s : Sending} (h : Exact s) : s.InOrder := by
  refine ⟨?_, fun _ => h.line⟩
  rintro _ ⟨rest, hrest⟩
  rw [← h.line, ← hrest, octets_append]
  exact List.prefix_append _ _

end VxWorks.Ppp
