import VxWorks.Ppp.Mru
import VxWorks.Ppp.PktIn

/-!
# Both halves of the receiver (`if_ppp.c`)

`pppinput` takes in the octets of the line, and at the end of a frame hands what it has to
`ppppktin`. The two have one `sc_comp` between them: an octet error makes the one forget what the
other has to go by.

`pppgetm` gets mbufs for a whole frame. If that is one mbuf, a frame is always in one: no octet is
put into an mbuf behind the first, whatever comes over the line.
-/

namespace VxWorks.Ppp

open VxWorks.Lib VxWorks.Netinet

/-- The receiver: `pppinput` with `sc_comp`, what else `ppppktin` goes by, and what has been put on
the queues. -/
structure Rx where
  sc : In
  pkt : PktIn
  inq : List (Inq × List UInt8)

/-- An octet comes. `lead` is the room in front of an mbuf that was filled. -/
def Rx.step (pool : Pool) (lead : Nat) (rx : Rx) (c : UInt8) : Rx :=
  let sc := pppinput pool rx.sc c
  match sc.got.drop rx.sc.got.length with
  | [] => { rx with sc }
  | m :: _ =>
      let r := ppppktin { rx.pkt with comp := sc.comp } lead (m.headD []) m.tail
      { rx with
        sc := { sc with comp := r.2 }
        inq := rx.inq ++ (r.1.map fun p => (p.1, p.2.octets)).toList }

def Rx.feed (pool : Pool) (lead : Nat) (rx : Rx) (cs : List UInt8) : Rx :=
  cs.foldl (Rx.step pool lead) rx

/-! ## One mbuf -/

/-- The first mbuf takes a whole frame. -/
def PoolBig (pool : Pool) (mru : Int) : Prop :=
  ∀ n, ∃ size, pool n 0 = some size ∧ mru + 6 ≤ dataSize true size

/-- No frame is in more than one mbuf. -/
structure OneMbuf (sc : In) : Prop where
  full : sc.full = []
  mc : sc.ilen = 0 ∨ (sc.mc.length : Int) ≤ sc.ilen
  pos : 0 ≤ sc.ilen
  ilen : sc.flush = false → sc.ilen ≤ sc.mru + 6

/-- In the middle of an octet, with room for `k` more. -/
structure HasRoom (sc₀ : In) (k : Nat) (sc : In) : Prop where
  full : sc.full = []
  mc : (sc.mc.length : Int) + k ≤ sc.ilen
  ilen : sc.ilen ≤ sc.mru + 6
  mru : sc.mru = sc₀.mru
  got : sc.got = sc₀.got
  comp : sc.comp = sc₀.comp

/-- What is left when an octet is refused. -/
structure Refused (sc₀ sc : In) : Prop where
  full : sc.full = []
  mc : sc.ilen = 0 ∨ (sc.mc.length : Int) ≤ sc.ilen
  pos : 0 ≤ sc.ilen
  mru : sc.mru = sc₀.mru
  got : sc.got = sc₀.got
  comp : sc.comp = sc₀.comp

/-- One or the other. -/
def RoomOr (sc₀ : In) (k : Nat) : Except In In → Prop
  | .ok sc => HasRoom sc₀ k sc
  | .error sc => Refused sc₀ sc

section

variable {pool : Pool} {sc₀ sc : In} {c : UInt8} {k j : Nat} {mru : Int}

theorem RoomOr.bind {r : Except In In} {f : In → Except In In} (h : RoomOr sc₀ k r)
    (hf : ∀ sc, HasRoom sc₀ k sc → RoomOr sc₀ j (f sc)) : RoomOr sc₀ j (r >>= f) := by
  cases r with
  | ok sc => exact hf sc h
  | error sc => exact h

theorem HasRoom.refused (h : HasRoom sc₀ k sc) : Refused sc₀ sc := by
  have hmc := h.mc
  exact ⟨h.full, .inr (by omega), by omega, h.mru, h.got, h.comp⟩

theorem inFirst_fits (h : OneMbuf sc) (hflush : sc.flush = false) (hmru : 0 ≤ sc.mru) :
    RoomOr sc 0 (inFirst pool sc c) := by
  have hilen := h.ilen hflush
  rw [inFirst]
  by_cases hfirst : sc.ilen ≠ 0
  · rw [if_pos hfirst]
    exact ⟨h.full, by simpa using h.mc.resolve_left hfirst, hilen, rfl, rfl, rfl⟩
  rw [if_neg hfirst]
  rw [not_not] at hfirst
  by_cases hpool : pool sc.got.length 0 = none
  · rw [if_pos hpool]
    exact ⟨h.full, .inl hfirst, h.pos, rfl, rfl, rfl⟩
  rw [if_neg hpool]
  dsimp only
  by_cases hall : c = pppAllstations
  · rw [if_pos hall]
    exact ⟨rfl, by simp [hfirst], by simp only; omega, rfl, rfl, rfl⟩
  rw [if_neg hall]
  by_cases hrej : sc.rejCompAc = true
  · rw [if_pos hrej]
    exact ⟨rfl, .inl hfirst, h.pos, rfl, rfl, rfl⟩
  rw [if_neg hrej, hfirst]
  refine ⟨rfl, ?_, ?_, rfl, rfl, rfl⟩
  · show (2 : Int) + 0 ≤ toShort (0 + 2)
    decide
  · show toShort (0 + 2) ≤ sc.mru + 6
    have htwo : toShort (0 + 2) = 2 := by decide
    omega

theorem inControl_fits (h : HasRoom sc₀ 0 sc) : RoomOr sc₀ 0 (inControl sc c) := by
  rw [inControl]
  split
  · exact h.refused
  · exact h

theorem inProtocol_fits (h : HasRoom sc₀ 0 sc) (hmru : 0 ≤ sc₀.mru) :
    RoomOr sc₀ 0 (inProtocol sc c) := by
  have hmc := h.mc
  have hsame := h.mru
  obtain ⟨sc', hsc', h'⟩ : ∃ sc', (if sc.ilen = 2 ∧ c &&& 1 = 1 then
      { sc with mc := sc.mc ++ [0], ilen := toShort (sc.ilen + 1) } else sc) = sc' ∧
      HasRoom sc₀ 0 sc' := by
    refine ⟨_, rfl, ?_⟩
    split
    · next hodd =>
        have hthree : toShort (sc.ilen + 1) = 3 := by
          rw [hodd.1]
          decide
        refine ⟨h.full, ?_, ?_, h.mru, h.got, h.comp⟩
        · show ((sc.mc ++ [0]).length : Int) + 0 ≤ toShort (sc.ilen + 1)
          rw [hthree, List.length_append, List.length_singleton]
          omega
        · show toShort (sc.ilen + 1) ≤ sc.mru + 6
          omega
    · exact h
  rw [inProtocol, hsc']
  split
  · exact h'.refused
  · exact h'

theorem inCount_fits (h : HasRoom sc₀ 0 sc) (hmru : 0 ≤ sc₀.mru ∧ sc₀.mru ≤ 32760) :
    RoomOr sc₀ 1 (inCount sc) := by
  have hmc := h.mc
  have hilen := h.ilen
  have hsame := h.mru
  have hcount : toShort (sc.ilen + 1) = sc.ilen + 1 := toShort_eq (by omega) (by omega)
  rw [inCount, hcount]
  dsimp only
  split
  · exact ⟨h.full, .inr (by show (sc.mc.length : Int) ≤ sc.ilen + 1; omega),
      by show 0 ≤ sc.ilen + 1; omega, h.mru, h.got, h.comp⟩
  · next hlong =>
      simp only [pppHdrlen, pppFcslen] at hlong
      refine ⟨h.full, ?_, ?_, h.mru, h.got, h.comp⟩
      · show (sc.mc.length : Int) + 1 ≤ sc.ilen + 1
        omega
      · show sc.ilen + 1 ≤ sc.mru + 6
        omega

theorem inRoom_fits (h : HasRoom sc₀ 1 sc) (hbig : PoolBig pool sc₀.mru) :
    RoomOr sc₀ 1 (inRoom pool sc) := by
  obtain ⟨size, hsize, hle⟩ := hbig sc.got.length
  have hmc := h.mc
  have hilen := h.ilen
  have hsame := h.mru
  have hroom : sc.mc.length < dataSize sc.full.isEmpty
      ((pool sc.got.length sc.full.length).getD 0) := by
    rw [h.full]
    show sc.mc.length < dataSize true ((pool sc.got.length 0).getD 0)
    rw [hsize, Option.getD_some]
    omega
  rw [inRoom, if_pos hroom]
  exact h

theorem inOctet_oneMbuf (h : OneMbuf sc) (hflush : sc.flush = false)
    (hmru : 0 ≤ sc.mru ∧ sc.mru ≤ 32760) (hbig : PoolBig pool sc.mru) :
    OneMbuf (inOctet pool sc c) ∧ (inOctet pool sc c).mru = sc.mru ∧
      (inOctet pool sc c).got = sc.got ∧ (inOctet pool sc c).comp = sc.comp := by
  obtain ⟨r, hr, hall⟩ : ∃ r : Except In In, inOctet pool sc c = (match r with
      | .ok sc => sc
      | .error sc => { sc with flush := true }) ∧ RoomOr sc 0 r := by
    refine ⟨_, inOctet_eq pool sc c, ?_⟩
    refine (inFirst_fits h hflush hmru.1).bind fun _ h₁ => (inControl_fits h₁).bind fun _ h₂ =>
      (inProtocol_fits h₂ hmru.1).bind fun _ h₃ => (inCount_fits h₃ hmru).bind fun _ h₄ =>
        (inRoom_fits h₄ hbig).bind fun sc' h₅ => ?_
    have hmc := h₅.mc
    refine ⟨h₅.full, ?_, h₅.ilen, h₅.mru, h₅.got, h₅.comp⟩
    show ((sc'.mc ++ [c]).length : Int) + 0 ≤ sc'.ilen
    rw [List.length_append, List.length_singleton]
    omega
  rw [hr]
  cases r with
  | ok sc' =>
      have hmc := hall.mc
      dsimp only
      exact ⟨⟨hall.full, .inr (by omega), by omega, fun _ => hall.ilen⟩, hall.mru, hall.got,
        hall.comp⟩
  | error sc' =>
      exact ⟨⟨hall.full, hall.mc, hall.pos, fun hfalse => absurd hfalse (by simp)⟩, hall.mru,
        hall.got, hall.comp⟩

/-- An octet that is not the flag. -/
theorem pppinput_octet (h : OneMbuf sc) (hmru : 0 ≤ sc.mru ∧ sc.mru ≤ 32760)
    (hbig : PoolBig pool sc.mru) (hc : c ≠ pppFlag) :
    OneMbuf (pppinput pool sc c) ∧ (pppinput pool sc c).mru = sc.mru ∧
      (pppinput pool sc c).got = sc.got ∧ (pppinput pool sc c).comp = sc.comp := by
  rw [pppinput, if_neg hc]
  by_cases hflush : sc.flush = true
  · rw [if_pos hflush]
    exact ⟨h, rfl, rfl, rfl⟩
  rw [if_neg hflush]
  rw [Bool.not_eq_true] at hflush
  split
  · exact ⟨h, rfl, rfl, rfl⟩
  split
  · exact @inOctet_oneMbuf _ { sc with escaped := false } _
      ⟨h.full, h.mc, h.pos, h.ilen⟩ hflush hmru hbig
  split
  · exact ⟨⟨h.full, h.mc, h.pos, h.ilen⟩, rfl, rfl, rfl⟩
  · exact inOctet_oneMbuf h hflush hmru hbig

/-- The flag. -/
theorem pppinput_flag (h : OneMbuf sc) (hmru : 0 ≤ sc.mru) :
    OneMbuf (pppinput pool sc pppFlag) ∧
      ((pppinput pool sc pppFlag).got = sc.got ∨ (pppinput pool sc pppFlag).comp = sc.comp ∧
        ∃ x, (pppinput pool sc pppFlag).got = sc.got ++ [[x]]) := by
  have hone : ∀ mc : List UInt8, ∃ x, dropFcs [] mc = [x] := by
    intro mc
    rw [dropFcs]
    split
    · exact ⟨_, rfl⟩
    · exact ⟨_, rfl⟩
  rw [pppinput, if_pos rfl, inFlag]
  dsimp only
  split
  · exact ⟨⟨h.full, .inl rfl, Int.le_refl 0, fun _ => by show (0 : Int) ≤ sc.mru + 6; omega⟩,
      .inl rfl⟩
  split
  · exact ⟨⟨h.full, .inl rfl, Int.le_refl 0, fun _ => by show (0 : Int) ≤ sc.mru + 6; omega⟩,
      .inl rfl⟩
  · refine ⟨⟨rfl, .inl rfl, Int.le_refl 0, fun _ => by show (0 : Int) ≤ sc.mru + 6; omega⟩,
      .inr ⟨rfl, ?_⟩⟩
    obtain ⟨x, hx⟩ := hone sc.mc
    exact ⟨x, by rw [h.full, hx]⟩

/-! ## A frame -/

variable {lead : Nat} {rx : Rx} {asyncmap : ExtAccm} {cs : List UInt8}

theorem rxFeed_append (pool : Pool) (lead : Nat) (rx : Rx) (cs ds : List UInt8) :
    rx.feed pool lead (cs ++ ds) = (rx.feed pool lead cs).feed pool lead ds := List.foldl_append

theorem step_octet (h : OneMbuf rx.sc) (hmru : 0 ≤ rx.sc.mru ∧ rx.sc.mru ≤ 32760)
    (hbig : PoolBig pool rx.sc.mru) (hc : c ≠ pppFlag) :
    rx.step pool lead c = { rx with sc := pppinput pool rx.sc c } := by
  obtain ⟨-, -, hgot, -⟩ := pppinput_octet h hmru hbig hc
  rw [Rx.step]
  dsimp only
  rw [hgot, List.drop_length]

/-- Between the flags nothing is handed on. -/
theorem feed_octets (h : OneMbuf rx.sc) (hmru : 0 ≤ rx.sc.mru ∧ rx.sc.mru ≤ 32760)
    (hbig : PoolBig pool rx.sc.mru) (hcs : ∀ c ∈ cs, c ≠ pppFlag) :
    rx.feed pool lead cs = { rx with sc := feed pool rx.sc cs } ∧ OneMbuf (feed pool rx.sc cs) ∧
      (feed pool rx.sc cs).got = rx.sc.got ∧ (feed pool rx.sc cs).comp = rx.sc.comp ∧
      (feed pool rx.sc cs).mru = rx.sc.mru := by
  induction cs generalizing rx with
  | nil => exact ⟨rfl, h, rfl, rfl, rfl⟩
  | cons c cs ih =>
      have hc := hcs c List.mem_cons_self
      obtain ⟨hone, hsame, hgot, hcomp⟩ := pppinput_octet h hmru hbig hc
      have hrest := @ih { rx with sc := pppinput pool rx.sc c } hone (by rwa [hsame])
        (by rwa [hsame]) (fun d hd => hcs d (List.mem_cons_of_mem _ hd))
      rw [Rx.feed, List.foldl_cons, step_octet h hmru hbig hc]
      refine ⟨hrest.1, hrest.2.1, ?_, ?_, ?_⟩
      · exact hrest.2.2.1.trans hgot
      · exact hrest.2.2.2.1.trans hcomp
      · exact hrest.2.2.2.2.trans hsame

/-- The frame of a packet is handed on as one mbuf. -/
theorem rx_frame {hi lo : UInt8} {hs tl : List UInt8} {next : Mbufs} (idle : Bool)
    (hp : PoolOk pool) (hbig : PoolBig pool rx.sc.mru) (hm : MapOk asyncmap)
    (hr : asyncmap 0 &&& rx.sc.rasyncmap = rx.sc.rasyncmap) (h : Ready rx.sc)
    (hone : OneMbuf rx.sc) (hrej : rx.sc.rejCompAc = true → hs.head? = some pppAllstations)
    (hhi : hi &&& 1 = 0) (hlo : lo &&& 1 = 1) (hs' : Shrunk hi lo hs)
    (hmru : ((tl ++ next.flatten).length : Int) ≤ rx.sc.mru) (hmax : rx.sc.mru ≤ 32760) :
    ∃ sc', Delivered rx.sc sc' (pppAllstations :: pppUi :: hi :: lo :: (tl ++ next.flatten)) ∧
      OneMbuf sc' ∧ sc'.comp = rx.sc.comp ∧
      rx.feed pool lead (frame asyncmap idle ((hs ++ tl) :: next)) =
        let r := ppppktin { rx.pkt with comp := rx.sc.comp } lead
          (pppAllstations :: pppUi :: hi :: lo :: (tl ++ next.flatten)) []
        { rx with
          sc := { sc' with comp := r.2 }
          inq := rx.inq ++ (r.1.map fun p => (p.1, p.2.octets)).toList } := by
  have hdel := frame_across idle hp hm hr h hrej hhi hlo hs' hmru (by omega)
  generalize hys : pppAllstations :: pppUi :: hi :: lo :: (tl ++ next.flatten) = ys at hdel ⊢
  obtain ⟨body, hbody, hframe⟩ : ∃ body : List UInt8, (∀ c ∈ body, c ≠ pppFlag) ∧
      frame asyncmap idle ((hs ++ tl) :: next) =
        (if idle then [pppFlag] else []) ++ (body ++ [pppFlag]) := by
    generalize hf : pppfcs pppInitfcs ((hs ++ tl) :: next).flatten = f
    refine ⟨stuffAll asyncmap ((hs ++ tl) :: next).flatten ++
      (stuff asyncmap (~~~ f).toUInt8 ++ stuff asyncmap (~~~ f >>> 8).toUInt8), ?_,
      by simp only [frame, endseq, hf, List.append_assoc]⟩
    intro c hc
    simp only [List.mem_append, stuffAll, List.mem_flatMap] at hc
    rcases hc with ⟨_, -, hc⟩ | hc | hc
    · exact stuff_ne_flag hm _ c hc
    · exact stuff_ne_flag hm _ c hc
    · exact stuff_ne_flag hm _ c hc
  have hopen : rx.feed pool lead (if idle then [pppFlag] else []) = rx ∧
      feed pool rx.sc (if idle then [pppFlag] else []) = rx.sc := by
    split
    · have hsame : feed pool rx.sc [pppFlag] = rx.sc := opening_across h
      refine ⟨?_, hsame⟩
      show rx.step pool lead pppFlag = rx
      rw [Rx.step, show pppinput pool rx.sc pppFlag = rx.sc from hsame, List.drop_length]
    · exact ⟨rfl, rfl⟩
  obtain ⟨hfeed, hone₁, hgot₁, hcomp₁, hmru₁⟩ :=
    @feed_octets _ lead _ _ hone ⟨by omega, hmax⟩ hbig hbody
  rw [hframe, feed_append, hopen.2, feed_append] at hdel
  generalize feed pool rx.sc body = sc₁ at hfeed hone₁ hgot₁ hcomp₁ hmru₁ hdel
  obtain ⟨hone', hflag⟩ := @pppinput_flag pool _ hone₁ (by omega)
  have hlast : feed pool sc₁ [pppFlag] = pppinput pool sc₁ pppFlag := rfl
  rw [hlast] at hdel
  have hgot := hdel.got
  rcases hflag with hsame | ⟨hcomp, x, hx⟩
  · rw [hsame, hgot₁] at hgot
    have hlen := congrArg List.length hgot
    simp at hlen
  rw [hx, hgot₁, List.map_append, List.append_cancel_left_eq] at hgot
  obtain rfl : x = ys := by simpa using hgot
  refine ⟨_, hdel, hone', hcomp.trans hcomp₁, ?_⟩
  rw [hframe, rxFeed_append, hopen.1, rxFeed_append, hfeed]
  show Rx.step pool lead { rx with sc := sc₁ } pppFlag = _
  rw [Rx.step]
  dsimp only
  rw [hx, List.drop_left]
  dsimp only
  rw [hcomp, hcomp₁]
  rfl

end

end VxWorks.Ppp
