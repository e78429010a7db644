import Mathlib.Tactic.IntervalCases
import VxWorks.Ppp.Transmit

/-!
# Frames across the line

What the receiver makes of the transmitter's frames. The two sides meet at the
octets of a frame before they are escaped: the receiver undoes escapes one octet
at a time (`feed_stuff`), a check sequence put after the octets it is about comes
out as the good value (`pppFcs_good`), and the header is filled in again from
what the compression left of it. `Holding` says what the receiver has in the
middle of a frame; `frame_across` is one whole frame.

The receiver tells a compressed header from an uncompressed one by looking at the
first octet, and so takes it for granted that an address is all-stations and that
control is UI. Packets with any other header do not get across.
-/

namespace VxWorks.Ppp

open VxWorks.Lib VxWorks.Netinet

/-! ## The check sequence -/

theorem fcs_index_lo (f : UInt16) : (f ^^^ (~~~ f).toUInt8.toUInt16) &&& 0xff = 0xff := by
  apply UInt16.toBitVec_inj.mp
  ext i hi
  simp only [UInt16.toBitVec_and, UInt16.toBitVec_xor, UInt8.toBitVec_toUInt16,
    UInt16.toBitVec_toUInt8, UInt16.toBitVec_not, ← BitVec.getLsbD_eq_getElem]
  interval_cases i <;> simp

theorem fcs_index_hi (f : UInt16) :
    (f >>> 8 ^^^ (0x0f78 : UInt16) ^^^ (~~~ f >>> 8).toUInt8.toUInt16) &&& 0xff = 0x87 := by
  apply UInt16.toBitVec_inj.mp
  ext i hi
  simp only [UInt16.toBitVec_and, UInt16.toBitVec_xor, UInt8.toBitVec_toUInt16,
    UInt16.toBitVec_toUInt8, UInt16.toBitVec_not, UInt16.toBitVec_shiftRight,
    ← BitVec.getLsbD_eq_getElem]
  interval_cases i <;> simp

theorem fcs_hi (f : UInt16) : (f >>> 8 ^^^ (0x0f78 : UInt16)) >>> 8 = 0x0f := by
  apply UInt16.toBitVec_inj.mp
  ext i hi
  simp only [UInt16.toBitVec_xor, UInt16.toBitVec_shiftRight, ← BitVec.getLsbD_eq_getElem]
  interval_cases i <;> simp

/-- Whatever the octets before it, the complement of their check sequence leads to
the good value. Only two entries of the table come into it. -/
theorem pppFcs_good (f : UInt16) :
    pppFcs (pppFcs f (~~~ f).toUInt8) (~~~ f >>> 8).toUInt8 = pppGoodfcs := by
  have h₁ : pppFcs f (~~~ f).toUInt8 = f >>> 8 ^^^ (0x0f78 : UInt16) := by
    rw [pppFcs, fcs_index_lo]
    rfl
  rw [h₁, pppFcs, fcs_index_hi, fcs_hi]
  rfl

/-! ## Escapes -/

/-- A map that the receiver can undo: flags and escapes are escaped, octets that
would turn into control characters or into a flag are not. -/
structure MapOk (asyncmap : ExtAccm) : Prop where
  word1 : asyncmap 1 = 0
  word2 : asyncmap 2 &&& 0x40000000 = 0
  word3 : asyncmap 3 &&& 0x60000000 = 0x60000000

theorem mapOk_pppopen : MapOk pppopenMap := ⟨rfl, rfl, rfl⟩

theorem mapOk_ioctl {asyncmap : ExtAccm} (h : MapOk asyncmap) (i : MapIoctl) :
    MapOk (ppptioctl asyncmap i) := by
  cases i with
  | sasyncmap map => exact ⟨h.word1, h.word2, h.word3⟩
  | sxasyncmap map =>
      refine ⟨rfl, ?_, ?_⟩
      · show map 2 &&& ~~~ 0x40000000 &&& 0x40000000 = 0
        rw [UInt32.and_assoc]
        exact UInt32.and_zero
      · apply UInt32.toBitVec_inj.mp
        ext k hk
        simp +contextual [ppptioctl]

/-- The maps that any sequence of settings leads to. -/
theorem mapOk_ioctls (is : List MapIoctl) : MapOk (is.foldl ppptioctl pppopenMap) := by
  induction is using List.reverseRecOn with
  | nil => exact mapOk_pppopen
  | append_singleton is i ih =>
      rw [List.foldl_append]
      exact mapOk_ioctl ih i

section

variable {asyncmap : ExtAccm} {pool : Pool} {sc : In} {c : UInt8}

/-- A bit that a word has in common with a mask. -/
theorem and_ne_zero_of_mask {w mask b : UInt32} (h : w &&& mask = mask) (hb : mask &&& b ≠ 0) :
    w &&& b ≠ 0 := by
  intro h0
  apply hb
  rw [← h, UInt32.and_assoc, UInt32.and_comm mask, ← UInt32.and_assoc, h0, UInt32.zero_and]

theorem escapeP_flag (h : MapOk asyncmap) : escapeP asyncmap pppFlag = true :=
  bne_iff_ne.mpr (and_ne_zero_of_mask h.word3 (by decide))

theorem escapeP_escape (h : MapOk asyncmap) : escapeP asyncmap pppEscape = true :=
  bne_iff_ne.mpr (and_ne_zero_of_mask h.word3 (by decide))

theorem not_escapeP_5e (h : MapOk asyncmap) : escapeP asyncmap 0x5e = false := by
  have hword : escapeP asyncmap 0x5e = (asyncmap 2 &&& 0x40000000 != 0) := rfl
  rw [hword, h.word2]
  rfl

theorem not_escapeP_printable (h : MapOk asyncmap) (hc : (c >>> 5).toNat = 1) :
    escapeP asyncmap c = false := by
  simp [escapeP, hc, h.word1]

/-! What the exclusive or with `PPP_TRANS` does. -/

theorem trans_ne_flag : ∀ c : UInt8, c ^^^ pppTrans = pppFlag → c = 0x5e :=
  forall_octet (by decide +kernel)

theorem trans_lt : ∀ c : UInt8, c ^^^ pppTrans < 0x20 → (c >>> 5).toNat = 1 :=
  forall_octet (by decide +kernel)

theorem trans_trans (c : UInt8) : c ^^^ pppTrans ^^^ pppTrans = c := by
  rw [UInt8.xor_assoc, UInt8.xor_self, UInt8.xor_zero]

theorem control_word : ∀ c : UInt8, c < 0x20 → (c >>> 5).toNat = 0 ∧ c &&& 0x1f = c :=
  forall_octet (by decide +kernel)

/-- The receiver undoes what was done to an octet. -/
theorem feed_stuff (h : MapOk asyncmap) (hr : asyncmap 0 &&& sc.rasyncmap = sc.rasyncmap)
    (hflush : sc.flush = false) (hesc : sc.escaped = false) :
    (stuff asyncmap c).foldl (pppinput pool) sc = inOctet pool sc c := by
  rw [stuff]
  split
  · next hc =>
      have h₁ : pppinput pool sc pppEscape = { sc with escaped := true } := by
        rw [pppinput]
        rw [if_neg (by decide), if_neg (by simp [hflush]), if_neg (by simp [pppEscape]),
          if_neg (by simp [hesc]), if_pos rfl]
      have hflag : c ^^^ pppTrans ≠ pppFlag := by
        intro heq
        rw [trans_ne_flag c heq, not_escapeP_5e h] at hc
        cases hc
      have hctl : ¬ c ^^^ pppTrans < 0x20 := by
        intro hlt
        rw [not_escapeP_printable h (trans_lt c hlt)] at hc
        cases hc
      rw [List.foldl_cons, List.foldl_cons, List.foldl_nil, h₁]
      rw [pppinput]
      rw [if_neg hflag, if_neg (by simp [hflush]), if_neg (fun hand => hctl hand.1), if_pos rfl,
        trans_trans]
      rw [← hesc]
  · next hc =>
      have hflag : c ≠ pppFlag := by
        rintro rfl
        exact hc (escapeP_flag h)
      have hescape : c ≠ pppEscape := by
        rintro rfl
        exact hc (escapeP_escape h)
      have hctl : ¬ (c < 0x20 ∧ sc.rasyncmap &&& ((1 : UInt32) <<< c.toUInt32) ≠ 0) := by
        rintro ⟨hlt, hbit⟩
        obtain ⟨hword, hlow⟩ := control_word c hlt
        refine hc (bne_iff_ne.mpr ?_)
        rw [hword, hlow]
        exact and_ne_zero_of_mask hr hbit
      rw [List.foldl_cons, List.foldl_nil]
      rw [pppinput]
      rw [if_neg hflag, if_neg (by simp [hflush]), if_neg hctl, if_neg (by simp [hesc]),
        if_neg hescape]

end

/-! ## The middle of a frame -/

/-- Mbufs can be had, and they have room for something. -/
def PoolOk (pool : Pool) : Prop := ∀ n k, ∃ size, pool n k = some size ∧ 0 < size

/-- What a frame leaves alone until its closing flag. -/
structure SameSettings (sc₀ sc : In) : Prop where
  rejCompAc : sc.rejCompAc = sc₀.rejCompAc
  rasyncmap : sc.rasyncmap = sc₀.rasyncmap
  mru : sc.mru = sc₀.mru
  got : sc.got = sc₀.got

/-- The receiver has the octets `xs` of a frame. Every mbuf before the last has
some of them. -/
structure Holding (sc₀ sc : In) (xs : List UInt8) (f : UInt16) : Prop
    extends SameSettings sc₀ sc where
  flush : sc.flush = false
  escaped : sc.escaped = false
  ilen : sc.ilen = xs.length
  octets : sc.full.flatten ++ sc.mc = xs
  filled : ∀ m ∈ sc.full, m ≠ []
  begun : sc.mc = [] → sc.full = []
  fcs : sc.fcs = f

/-- The steps after the first octet was looked at. -/
def inRest (pool : Pool) (sc : In) (c : UInt8) : Except In In := do
  let sc ← inControl sc c
  let sc ← inProtocol sc c
  let sc ← inCount sc
  let sc ← inRoom pool sc
  pure { sc with mc := sc.mc ++ [c], fcs := pppFcs sc.fcs c }

/-- The steps after the header was. -/
def inStore (pool : Pool) (sc : In) (c : UInt8) : Except In In := do
  let sc ← inCount sc
  let sc ← inRoom pool sc
  pure { sc with mc := sc.mc ++ [c], fcs := pppFcs sc.fcs c }

section

variable {pool : Pool} {sc₀ sc : In} {xs : List UInt8} {f : UInt16} {c : UInt8}

theorem dataSize_pos {first : Bool} {size : Nat} (h : 0 < size) : 0 < dataSize first size := by
  rw [dataSize]
  split
  · next hroom =>
      have hle := of_decide_eq_true (Bool.and_eq_true_iff.mp hroom).2
      simp only [hdroff, pppHdrlen] at hle ⊢
      omega
  · exact h

theorem toShort_eq {n : Int} (h₁ : -32768 ≤ n) (h₂ : n ≤ 32767) : toShort n = n := by
  rw [toShort]
  omega

theorem inStore_spec (hp : PoolOk pool) (h : Holding sc₀ sc xs f)
    (hmru : (xs.length : Int) + 1 ≤ sc₀.mru + 6) (hshort : xs.length + 1 ≤ 32767) :
    ∃ sc', inStore pool sc c = .ok sc' ∧ Holding sc₀ sc' (xs ++ [c]) (pppFcs f c) := by
  have hcount : inCount sc = .ok { sc with ilen := (xs.length : Int) + 1 } := by
    rw [inCount]
    dsimp only
    rw [h.ilen, toShort_eq (by omega) (by omega), h.mru, if_neg]
    simp only [pppHdrlen, pppFcslen]
    omega
  obtain ⟨size, hsize, hpos⟩ := hp sc.got.length sc.full.length
  have hlen : (xs.length : Int) + 1 = ((xs ++ [c]).length : Int) := by simp
  rw [inStore]
  rw [hcount]
  simp only [bind, Except.bind, pure, Except.pure]
  rw [inRoom]
  dsimp only
  rw [hsize, Option.getD_some]
  by_cases hroom : sc.mc.length < dataSize sc.full.isEmpty size
  · rw [if_pos hroom]
    refine ⟨_, rfl, ⟨h.rejCompAc, h.rasyncmap, h.mru, h.got⟩, h.flush, h.escaped, hlen, ?_, h.filled,
      ?_, ?_⟩
    · rw [← h.octets, List.append_assoc]
    · simp
    · rw [h.fcs]
  · obtain ⟨size', hsize', -⟩ := hp sc.got.length (sc.full.length + 1)
    have hmc : sc.mc ≠ [] := by
      intro hnil
      rw [hnil] at hroom
      exact hroom (dataSize_pos hpos)
    rw [if_neg hroom, if_neg (by simp [hsize'])]
    refine ⟨_, rfl, ⟨h.rejCompAc, h.rasyncmap, h.mru, h.got⟩, h.flush, h.escaped, hlen, ?_, ?_,
      ?_, ?_⟩
    · rw [← h.octets]
      simp
    · intro m hm
      rcases List.mem_append.mp hm with hm | hm
      · exact h.filled m hm
      · rw [List.mem_singleton.mp hm]
        exact hmc
    · simp
    · rw [h.fcs]

/-- An octet that passes the looks at the header. -/
theorem inRest_plain (hp : PoolOk pool) (h : Holding sc₀ sc xs f)
    (h₁ : xs.length = 1 → c = pppUi) (h₂ : xs.length = 2 → c &&& 1 ≠ 1)
    (h₃ : xs.length = 3 → c &&& 1 ≠ 0) (hmru : (xs.length : Int) + 1 ≤ sc₀.mru + 6)
    (hshort : xs.length + 1 ≤ 32767) :
    ∃ sc', inRest pool sc c = .ok sc' ∧ Holding sc₀ sc' (xs ++ [c]) (pppFcs f c) := by
  have hctl : inControl sc c = .ok sc := by
    rw [inControl, if_neg]
    rw [h.ilen]
    exact fun hne => hne.2 (h₁ (by omega))
  have hproto : inProtocol sc c = .ok sc := by
    have hlen := h.ilen
    have hodd : ¬ (sc.ilen = 2 ∧ c &&& 1 = 1) := fun hne => h₂ (by omega) hne.2
    have heven : ¬ (sc.ilen = 3 ∧ c &&& 1 = 0) := fun hne => h₃ (by omega) hne.2
    rw [inProtocol, if_neg hodd, if_neg heven]
  have hrest : inRest pool sc c = inStore pool sc c := by
    rw [inRest]
    rw [hctl]
    simp only [bind, Except.bind]
    rw [hproto]
    rfl
  rw [hrest]
  exact inStore_spec hp h hmru hshort

/-- A compressed protocol. -/
theorem inRest_protocol (hp : PoolOk pool) (h : Holding sc₀ sc xs f) (h2 : xs.length = 2)
    (hc : c &&& 1 = 1) (hmru : 0 ≤ sc₀.mru) :
    ∃ sc', inRest pool sc c = .ok sc' ∧ Holding sc₀ sc' (xs ++ [0, c]) (pppFcs f c) := by
  have hctl : inControl sc c = .ok sc := by
    rw [inControl, if_neg]
    rw [h.ilen]
    omega
  have hproto : inProtocol sc c = .ok { sc with mc := sc.mc ++ [0], ilen := 3 } := by
    have hlen : sc.ilen = 2 := by rw [h.ilen, h2]; rfl
    rw [inProtocol, if_pos (⟨hlen, hc⟩ : sc.ilen = 2 ∧ c &&& 1 = 1), if_neg]
    · rw [hlen]
      rfl
    · rintro ⟨-, h0⟩
      rw [hc] at h0
      cases h0
  have hzero : Holding sc₀ { sc with mc := sc.mc ++ [0], ilen := 3 } (xs ++ [0]) f := by
    refine ⟨⟨h.rejCompAc, h.rasyncmap, h.mru, h.got⟩, h.flush, h.escaped, ?_, ?_, h.filled, ?_, h.fcs⟩
    · simp [h2]
    · rw [← h.octets, List.append_assoc]
    · simp
  have hrest : inRest pool sc c =
      inStore pool { sc with mc := sc.mc ++ [0], ilen := 3 } c := by
    rw [inRest]
    rw [hctl]
    simp only [bind, Except.bind]
    rw [hproto]
    rfl
  have hlen : (xs ++ [0]).length = 3 := by simp [h2]
  obtain ⟨sc', hok, hhold⟩ := inStore_spec (c := c) hp hzero (by omega) (by omega)
  refine ⟨sc', hrest.trans hok, ?_⟩
  rw [List.append_assoc] at hhold
  exact hhold

/-- Between frames. -/
structure Ready (sc : In) : Prop where
  flush : sc.flush = false
  escaped : sc.escaped = false
  ilen : sc.ilen = 0

/-- The first octet was an address. -/
def In.begin (sc : In) : In := { sc with full := [], mc := [], fcs := pppInitfcs }

/-- It was not, and address and control were filled in. -/
def In.fill (sc : In) : In :=
  { sc with full := [], mc := [pppAllstations, pppUi], ilen := 2, fcs := pppInitfcs }

theorem Ready.begin (h : Ready sc) : Holding sc sc.begin [] pppInitfcs :=
  ⟨⟨rfl, rfl, rfl, rfl⟩, h.flush, h.escaped, h.ilen, rfl, by simp [In.begin], by simp [In.begin], rfl⟩

theorem Ready.fill (h : Ready sc) : Holding sc sc.fill [pppAllstations, pppUi] pppInitfcs :=
  ⟨⟨rfl, rfl, rfl, rfl⟩, h.flush, h.escaped, rfl, rfl, by simp [In.fill], by simp [In.fill], rfl⟩

theorem inOctet_eq (pool : Pool) (sc : In) (c : UInt8) :
    inOctet pool sc c =
      match (do let sc ← inFirst pool sc c; inRest pool sc c : Except In In) with
      | .ok sc => sc
      | .error sc => { sc with flush := true } := rfl

theorem inOctet_of_rest {sc₁ sc' : In} (hfirst : inFirst pool sc c = .ok sc₁)
    (hrest : inRest pool sc₁ c = .ok sc') : inOctet pool sc c = sc' := by
  rw [inOctet_eq, hfirst]
  simp only [bind, Except.bind]
  rw [hrest]

theorem inFirst_address (hp : PoolOk pool) (h : Ready sc) :
    inFirst pool sc pppAllstations = .ok sc.begin := by
  obtain ⟨size, hsize, -⟩ := hp sc.got.length 0
  rw [inFirst, if_neg (not_not.mpr h.ilen), if_neg (by simp [hsize])]
  rfl

theorem inFirst_compressed (hp : PoolOk pool) (h : Ready sc) (hrej : sc.rejCompAc = false)
    (hc : c ≠ pppAllstations) : inFirst pool sc c = .ok sc.fill := by
  obtain ⟨size, hsize, -⟩ := hp sc.got.length 0
  rw [inFirst, if_neg (not_not.mpr h.ilen), if_neg (by simp [hsize])]
  dsimp only
  rw [if_neg hc, if_neg (by simp [hrej]), h.ilen]
  rfl

theorem inFirst_next (h : Holding sc₀ sc xs f) (hne : xs ≠ []) : inFirst pool sc c = .ok sc := by
  rw [inFirst, if_pos]
  rw [h.ilen]
  simpa using hne

end

/-! ## Whole frames -/

/-- What may be left of the header of a packet with the protocol `hi lo`. -/
inductive Shrunk (hi lo : UInt8) : List UInt8 → Prop
  | whole : Shrunk hi lo [pppAllstations, pppUi, hi, lo]
  | prot (h0 : hi = 0) : Shrunk hi lo [pppAllstations, pppUi, lo]
  | ac : Shrunk hi lo [hi, lo]
  | both (h0 : hi = 0) (hff : lo ≠ pppAllstations) : Shrunk hi lo [lo]

section

variable {asyncmap : ExtAccm} {pool : Pool} {sc₀ sc : In} {xs : List UInt8} {f : UInt16} {c : UInt8}

/-- The receiver takes in octets. -/
def feed (pool : Pool) (sc : In) (cs : List UInt8) : In := cs.foldl (pppinput pool) sc

theorem feed_append (pool : Pool) (sc : In) (cs ds : List UInt8) :
    feed pool sc (cs ++ ds) = feed pool (feed pool sc cs) ds := List.foldl_append

theorem feed_stuffAll_cons (pool : Pool) (asyncmap : ExtAccm) (sc : In) (c : UInt8)
    (cs : List UInt8) :
    feed pool sc (stuffAll asyncmap (c :: cs)) =
      feed pool (feed pool sc (stuff asyncmap c)) (stuffAll asyncmap cs) := by
  rw [stuffAll_cons, feed_append]

theorem feed_next (hm : MapOk asyncmap) (hr : asyncmap 0 &&& sc₀.rasyncmap = sc₀.rasyncmap)
    (h : Holding sc₀ sc xs f) (hne : xs ≠ []) {sc' : In} (hrest : inRest pool sc c = .ok sc') :
    feed pool sc (stuff asyncmap c) = sc' := by
  have hr' : asyncmap 0 &&& sc.rasyncmap = sc.rasyncmap := by
    rw [h.rasyncmap]
    exact hr
  exact (feed_stuff hm hr' h.flush h.escaped).trans (inOctet_of_rest (inFirst_next h hne) hrest)

/-- Address and control. -/
theorem address_across (hp : PoolOk pool) (hm : MapOk asyncmap)
    (hr : asyncmap 0 &&& sc.rasyncmap = sc.rasyncmap) (h : Ready sc) (hmru : 0 ≤ sc.mru) :
    Holding sc (feed pool (feed pool sc (stuff asyncmap pppAllstations)) (stuff asyncmap pppUi))
      [pppAllstations, pppUi] (pppfcs pppInitfcs [pppAllstations, pppUi]) := by
  obtain ⟨sc₁, hok₁, h₁⟩ := inRest_plain (c := pppAllstations) hp h.begin (fun hl => by cases hl)
    (fun hl => by cases hl) (fun hl => by cases hl) (by simp; omega) (by simp)
  obtain ⟨sc₂, hok₂, h₂⟩ := inRest_plain (c := pppUi) hp h₁ (fun _ => rfl)
    (fun hl => by cases hl) (fun hl => by cases hl) (by simp; omega) (by simp)
  have hfeed₁ : feed pool sc (stuff asyncmap pppAllstations) = sc₁ :=
    (feed_stuff hm hr h.flush h.escaped).trans (inOctet_of_rest (inFirst_address hp h) hok₁)
  rw [hfeed₁, feed_next hm hr h₁ (by simp) hok₂]
  exact h₂

/-- The second octet of the protocol. -/
theorem low_across {hi lo : UInt8} (hp : PoolOk pool) (hm : MapOk asyncmap)
    (hr : asyncmap 0 &&& sc₀.rasyncmap = sc₀.rasyncmap) (hmru : 0 ≤ sc₀.mru) (hlo : lo &&& 1 = 1)
    (h : Holding sc₀ sc [pppAllstations, pppUi, hi] f) :
    Holding sc₀ (feed pool sc (stuff asyncmap lo)) [pppAllstations, pppUi, hi, lo]
      (pppFcs f lo) := by
  obtain ⟨sc', hok, h'⟩ := inRest_plain (c := lo) hp h (fun hl => by cases hl)
    (fun hl => by cases hl) (fun _ h0 => by rw [hlo] at h0; cases h0) (by simp; omega) (by simp)
  rw [feed_next hm hr h (by simp) hok]
  exact h'

/-- What a header turns into. -/
theorem header_across {hi lo : UInt8} {hs : List UInt8} (hp : PoolOk pool) (hm : MapOk asyncmap)
    (hr : asyncmap 0 &&& sc.rasyncmap = sc.rasyncmap) (h : Ready sc)
    (hrej : sc.rejCompAc = true → hs.head? = some pppAllstations)
    (hmru : 0 ≤ sc.mru) (hhi : hi &&& 1 = 0) (hlo : lo &&& 1 = 1) (hs' : Shrunk hi lo hs) :
    Holding sc (feed pool sc (stuffAll asyncmap hs)) [pppAllstations, pppUi, hi, lo]
      (pppfcs pppInitfcs hs) := by
  have hhi' : hi &&& 1 ≠ 1 := by
    rw [hhi]
    decide
  -- the first octet of the protocol, whether address and control were sent or not
  have hhigh : ∀ {sc₂ g}, Holding sc sc₂ [pppAllstations, pppUi] g →
      ∃ sc₃, inRest pool sc₂ hi = .ok sc₃ ∧
        Holding sc sc₃ [pppAllstations, pppUi, hi] (pppFcs g hi) := fun h₂ =>
    inRest_plain hp h₂ (fun hl => by cases hl) (fun _ => hhi') (fun hl => by cases hl)
      (by simp; omega) (by simp)
  have hfirst : ∀ {c sc'}, hs.head? = some c → c ≠ pppAllstations →
      inRest pool sc.fill c = .ok sc' → feed pool sc (stuff asyncmap c) = sc' := by
    intro c sc' hhead hc hok
    have hrej' : sc.rejCompAc = false := by
      by_contra hrej'
      rw [hrej (by simpa using hrej')] at hhead
      exact hc (Option.some.inj hhead).symm
    exact (feed_stuff hm hr h.flush h.escaped).trans
      (inOctet_of_rest (inFirst_compressed hp h hrej' hc) hok)
  cases hs' with
  | whole =>
      have h₂ := address_across hp hm hr h hmru
      obtain ⟨sc₃, hok₃, h₃⟩ := hhigh h₂
      simp only [feed_stuffAll_cons]
      rw [feed_next hm hr h₂ (by simp) hok₃]
      exact low_across hp hm hr hmru hlo h₃
  | prot h0 =>
      have h₂ := address_across hp hm hr h hmru
      obtain ⟨sc₄, hok₄, h₄⟩ := inRest_protocol hp h₂ rfl hlo hmru
      simp only [feed_stuffAll_cons]
      rw [feed_next hm hr h₂ (by simp) hok₄, h0]
      exact h₄
  | ac =>
      have hne : hi ≠ pppAllstations := by
        rintro rfl
        cases hhi
      obtain ⟨sc₃, hok₃, h₃⟩ := hhigh h.fill
      simp only [feed_stuffAll_cons]
      rw [hfirst rfl hne hok₃]
      exact low_across hp hm hr hmru hlo h₃
  | both h0 hff =>
      obtain ⟨sc₄, hok₄, h₄⟩ := inRest_protocol hp h.fill rfl hlo hmru
      simp only [feed_stuffAll_cons]
      rw [hfirst rfl hff hok₄, h0]
      exact h₄

/-- The rest of a packet. -/
theorem body_across (hp : PoolOk pool) (hm : MapOk asyncmap)
    (hr : asyncmap 0 &&& sc₀.rasyncmap = sc₀.rasyncmap) (h : Holding sc₀ sc xs f)
    (h4 : 4 ≤ xs.length) (cs : List UInt8)
    (hmru : ((xs.length + cs.length : Nat) : Int) ≤ sc₀.mru + 6)
    (hshort : xs.length + cs.length ≤ 32767) :
    Holding sc₀ (feed pool sc (stuffAll asyncmap cs)) (xs ++ cs) (pppfcs f cs) := by
  induction cs generalizing sc xs f with
  | nil => simpa [feed, stuffAll, pppfcs] using h
  | cons c cs ih =>
      simp only [List.length_cons] at hmru hshort
      obtain ⟨sc', hok, h'⟩ := inRest_plain (c := c) hp h (by omega) (by omega) (by omega)
        (by omega) (by omega)
      have hlen : (xs ++ [c]).length = xs.length + 1 := by simp
      rw [feed_stuffAll_cons, feed_next hm hr h (List.ne_nil_of_length_pos (by omega)) hok]
      have hcs := ih h' (by omega) (by omega) (by omega)
      rw [List.append_assoc] at hcs
      exact hcs

/-- Two octets less, wherever the mbufs end. -/
theorem flatten_dropFcs {full : Mbufs} {mc ys : List UInt8} {a b : UInt8}
    (hfull : ∀ m ∈ full, m ≠ []) (hmc : mc ≠ []) (h : full.flatten ++ mc = ys ++ [a, b]) :
    (dropFcs full mc).flatten = ys := by
  obtain ⟨mc', z, rfl⟩ := (List.eq_nil_or_concat' mc).resolve_left hmc
  have hz : full.flatten ++ mc' = ys ++ [a] := by
    have h' : (full.flatten ++ mc') ++ [z] = (ys ++ [a]) ++ [b] := by simpa using h
    exact (List.append_inj' h' rfl).1
  unfold dropFcs
  rw [List.dropLast_concat]
  dsimp only
  split
  · next hnil =>
      subst hnil
      rcases List.eq_nil_or_concat' full with rfl | ⟨full', m, rfl⟩
      · simp at hz
      · obtain ⟨m', w, rfl⟩ :=
          (List.eq_nil_or_concat' m).resolve_left (hfull m (by simp))
        have hw : (full'.flatten ++ m') ++ [w] = ys ++ [a] := by simpa using hz
        simpa using (List.append_inj' hw rfl).1
  · next hne =>
      obtain ⟨mc'', w, rfl⟩ := (List.eq_nil_or_concat' mc').resolve_left hne
      have hw : (full.flatten ++ mc'') ++ [w] = ys ++ [a] := by simpa using hz
      simpa using (List.append_inj' hw rfl).1

/-- The packet `ys` was delivered and the receiver is ready for the next one. -/
structure Delivered (sc₀ sc : In) (ys : List UInt8) : Prop extends Ready sc where
  rejCompAc : sc.rejCompAc = sc₀.rejCompAc
  rasyncmap : sc.rasyncmap = sc₀.rasyncmap
  mru : sc.mru = sc₀.mru
  got : sc.got.map List.flatten = sc₀.got.map List.flatten ++ [ys]

/-- The closing flag. -/
theorem flag_across (pool : Pool) {ys : List UInt8} {a b : UInt8}
    (h : Holding sc₀ sc (ys ++ [a, b]) pppGoodfcs) (h4 : 4 ≤ ys.length) :
    Delivered sc₀ (feed pool sc [pppFlag]) ys := by
  have hlen : sc.ilen = (ys.length : Int) + 2 := by
    rw [h.ilen]
    simp
  have hmc : sc.mc ≠ [] := by
    intro hnil
    have hoct := h.octets
    rw [hnil, h.begun hnil] at hoct
    simp at hoct
  have hflag : feed pool sc [pppFlag] = { sc with
      ilen := 0, full := [], mc := [], got := sc.got ++ [dropFcs sc.full sc.mc] } := by
    show pppinput pool sc pppFlag = _
    rw [pppinput, inFlag]
    rw [if_pos rfl]
    dsimp only
    rw [if_neg (by simp [h.flush, h.escaped, h.fcs]), if_neg]
    simp only [hlen, pppHdrlen, pppFcslen]
    omega
  rw [hflag]
  refine ⟨⟨h.flush, h.escaped, rfl⟩, h.rejCompAc, h.rasyncmap, h.mru, ?_⟩
  simp [h.got, flatten_dropFcs h.filled hmc h.octets]

/-- An opening flag finds nothing to end. -/
theorem opening_across (h : Ready sc) : feed pool sc [pppFlag] = sc := by
  show pppinput pool sc pppFlag = _
  rw [pppinput, inFlag]
  rw [if_pos rfl]
  dsimp only
  rw [if_neg (by simp [h.flush, h.escaped, h.ilen]), h.ilen]
  rw [if_pos (by decide)]
  rw [← h.ilen]

/-- A whole frame: what is left of a header, and the rest of the packet. -/
theorem frame_across {hi lo : UInt8} {hs tl : List UInt8} {next : Mbufs} (idle : Bool)
    (hp : PoolOk pool) (hm : MapOk asyncmap) (hr : asyncmap 0 &&& sc.rasyncmap = sc.rasyncmap)
    (h : Ready sc) (hrej : sc.rejCompAc = true → hs.head? = some pppAllstations)
    (hhi : hi &&& 1 = 0) (hlo : lo &&& 1 = 1) (hs' : Shrunk hi lo hs)
    (hmru : ((tl ++ next.flatten).length : Int) ≤ sc.mru)
    (hshort : 4 + (tl ++ next.flatten).length + 2 ≤ 32767) :
    Delivered sc (feed pool sc (frame asyncmap idle ((hs ++ tl) :: next)))
      (pppAllstations :: pppUi :: hi :: lo :: (tl ++ next.flatten)) := by
  have hopen : feed pool sc (if idle then [pppFlag] else []) = sc := by
    split
    · exact opening_across h
    · rfl
  have hheader := header_across hp hm hr h hrej (by omega) hhi hlo hs'
  have hbody := body_across hp hm hr hheader (by simp) (tl ++ next.flatten)
    (by simp only [List.length_cons, List.length_nil]; omega)
    (by simp only [List.length_cons, List.length_nil]; omega)
  rw [← pppfcs_append] at hbody
  generalize htl : tl ++ next.flatten = rest at hbody hmru hshort ⊢
  generalize hg : pppfcs pppInitfcs (hs ++ rest) = g at hbody
  have hcheck := body_across hp hm hr hbody (by simp)
    [(~~~ g).toUInt8, (~~~ g >>> 8).toUInt8]
    (by simp only [List.length_append, List.length_cons, List.length_nil]; omega)
    (by simp only [List.length_append, List.length_cons, List.length_nil]; omega)
  rw [show pppfcs g [(~~~ g).toUInt8, (~~~ g >>> 8).toUInt8] = pppGoodfcs from pppFcs_good g]
    at hcheck
  have hflag := flag_across pool hcheck (by simp)
  have hframe : frame asyncmap idle ((hs ++ tl) :: next) = (if idle then [pppFlag] else []) ++
      (stuffAll asyncmap hs ++ (stuffAll asyncmap rest ++
        (stuffAll asyncmap [(~~~ g).toUInt8, (~~~ g >>> 8).toUInt8] ++ [pppFlag]))) := by
    rw [frame, List.flatten_cons, List.append_assoc, htl, hg, stuffAll_append, endseq]
    simp [stuffAll]
  rw [hframe]
  simp only [feed_append, hopen]
  exact hflag

end

/-! ## Whole queues -/

/-- A packet that fits the receiver. Its header is in its first mbuf, where
`pppoutput` puts it; a `short` has to hold the length of the frame. -/
structure WellFormed (mru : Int) (m : Mbufs) : Prop where
  header : ∃ hi lo tl next, m = (pppAllstations :: pppUi :: hi :: lo :: tl) :: next ∧
    hi &&& 1 = 0 ∧ lo &&& 1 = 1
  fits : (m.flatten.length : Int) ≤ mru
  short : m.flatten.length + 2 ≤ 32767

/-- Frames one after the other. -/
inductive Framed (asyncmap : ExtAccm) : List Mbufs → List UInt8 → Prop
  | nil : Framed asyncmap [] []
  | cons (idle : Bool) (m : Mbufs) {ms : List Mbufs} {bs : List UInt8}
      (h : Framed asyncmap ms bs) : Framed asyncmap (m :: ms) (frame asyncmap idle m ++ bs)

/-- A packet with its header compressed, if TCP/IP headers are not. -/
def shrink (sc : Out) (m : Mbufs) : Mbufs :=
  pppCompress sc (m.headD []) (get16 ((m.headD []).getD 2 0) ((m.headD []).getD 3 0)) :: m.tail

section

variable {tty : Tty} {sc : Out}

theorem pppDequeued_shrink (sc : Out) (h : sc.compTcp = false) (m : Mbufs) :
    pppDequeued sc m = (shrink sc m, sc) := by
  unfold pppDequeued pppVjc
  dsimp only
  rw [if_pos (.inr h)]
  rfl

theorem proto_lt {hi lo : UInt8} (h : get16 hi lo < 0xff) : hi = 0 ∧ lo ≠ pppAllstations := by
  have hnat : (get16 hi lo).toNat < 255 := UInt16.lt_iff_toNat_lt.mp h
  rw [toNat_get16] at hnat
  constructor
  · apply UInt8.toNat_inj.mp
    show hi.toNat = 0
    omega
  · rintro rfl
    simp [pppAllstations] at hnat

theorem shrink_shrunk (sc : Out) (hi lo : UInt8) (tl : List UInt8) (next : Mbufs) :
    ∃ hs, Shrunk hi lo hs ∧
      shrink sc ((pppAllstations :: pppUi :: hi :: lo :: tl) :: next) = (hs ++ tl) :: next := by
  have h₀ : (pppAllstations :: pppUi :: hi :: lo :: tl).getD 0 0 = pppAllstations := rfl
  have h₁ : (pppAllstations :: pppUi :: hi :: lo :: tl).getD 1 0 = pppUi := rfl
  have h₂ : (pppAllstations :: pppUi :: hi :: lo :: tl).getD 2 0 = hi := rfl
  have h₃ : (pppAllstations :: pppUi :: hi :: lo :: tl).getD 3 0 = lo := rfl
  rw [shrink, pppCompress]
  simp only [List.headD_cons, List.tail_cons, h₀, h₁, h₂, h₃]
  generalize (sc.compAc && pppAllstations == pppAllstations && pppUi == pppUi &&
    get16 hi lo != pppAllstations.toUInt16 && get16 hi lo != pppLcp) = ac
  cases hpr : sc.compProt && decide (get16 hi lo < 0xff) with
  | false =>
      cases ac
      · exact ⟨_, .whole, rfl⟩
      · exact ⟨_, .ac, rfl⟩
  | true =>
      obtain ⟨h0, hff⟩ := proto_lt (of_decide_eq_true (Bool.and_eq_true_iff.mp hpr).2)
      cases ac
      · exact ⟨_, .prot h0, rfl⟩
      · exact ⟨_, .both h0 hff, rfl⟩

/-- What one round of the loop changes. -/
theorem wrtPacket_next (tty : Tty) {sc sc' : Out} {m : Mbufs} (hout : sc.outm = none)
    (hd : pppDequeue sc = some (m, sc')) :
    ∃ outfcs line, wrtPacket tty sc =
      some { sc' with outm := none, outfcs := outfcs, line := line } := by
  unfold wrtPacket
  rw [hout, hd]
  exact ⟨_, _, rfl⟩

/-- The packets come off the queues in order, the fast queue first. -/
theorem pppDequeue_queues (sc : Out) (htcp : sc.compTcp = false) :
    (sc.fastq ++ sc.snd = [] ∧ pppDequeue sc = none) ∨
      ∃ m fastq snd, sc.fastq ++ sc.snd = m :: (fastq ++ snd) ∧
        pppDequeue sc = some (shrink sc m, { sc with fastq := fastq, snd := snd }) := by
  unfold pppDequeue
  cases hf : sc.fastq with
  | cons m q =>
      exact .inr ⟨m, q, sc.snd, rfl,
        congrArg some (pppDequeued_shrink { sc with fastq := q } htcp m)⟩
  | nil =>
      cases hs : sc.snd with
      | nil => exact .inl ⟨rfl, rfl⟩
      | cons m q =>
          exact .inr ⟨m, [], q, rfl,
            congrArg some (pppDequeued_shrink { sc with fastq := [], snd := q } htcp m)⟩

theorem prefix_wrtPacket (tty : Tty) {sc sc' : Out} (h : wrtPacket tty sc = some sc') :
    sc.line <+: sc'.line := by
  unfold wrtPacket at h
  split at h
  · obtain rfl := Option.some.inj h
    exact prefix_sendPacket tty sc _
  · split at h
    · cases h
    · next m sc₁ hd =>
        obtain ⟨-, hline, -⟩ := pppDequeue_frame hd
        obtain rfl := Option.some.inj h
        refine List.IsPrefix.trans ?_ (prefix_sendPacket tty _ m)
        dsimp only
        rw [hline]
        split
        · exact prefix_put ..
        · exact List.prefix_refl _

theorem prefix_wrtLoop (tty : Tty) (fuel : Nat) (sc : Out) :
    sc.line <+: (wrtLoop tty fuel sc).line := by
  induction fuel generalizing sc with
  | zero => exact List.prefix_refl _
  | succ fuel ih =>
      unfold wrtLoop
      split
      · exact List.prefix_refl _
      · next hw => exact (prefix_wrtPacket tty hw).trans (ih _)

theorem wrtLoop_framed (fuel : Nat) (sc : Out) (hout : sc.outm = none)
    (htcp : sc.compTcp = false) (hf : (sc.fastq ++ sc.snd).length < fuel)
    (hfull : (wrtLoop tty fuel sc).line.Full) :
    ∃ bs, Framed sc.asyncmap ((sc.fastq ++ sc.snd).map (shrink sc)) bs ∧
      (wrtLoop tty fuel sc).line.octets = sc.line.octets ++ bs := by
  induction fuel generalizing sc with
  | zero => cases hf
  | succ fuel ih =>
      unfold wrtLoop
      rcases pppDequeue_queues sc htcp with ⟨hq, hd⟩ | ⟨m, fastq, snd, hq, hd⟩
      · have hw : wrtPacket tty sc = none := by rw [wrtPacket, hout, hd]
        rw [hw, hq]
        exact ⟨[], .nil, by simp⟩
      · obtain ⟨outfcs, line, hw⟩ := wrtPacket_next tty hout hd
        rw [hq, List.length_cons] at hf
        rw [wrtLoop, hw] at hfull
        obtain ⟨bs, hbs, hrest⟩ := ih { sc with
          fastq := fastq, snd := snd, outm := none, outfcs := outfcs, line := line } rfl htcp
          (by dsimp only; omega) hfull
        obtain ⟨-, -, hline⟩ := wrtPacket_full hout hd hw
          (hfull.of_prefix (prefix_wrtLoop tty fuel _))
        rw [hw, hq, List.map_cons]
        refine ⟨_, .cons (tty.nwrite sc.line.length == 0) _ hbs, ?_⟩
        dsimp only
        rw [hrest]
        dsimp only at hline ⊢
        rw [hline, List.append_assoc]

end

/-- Frames one after the other are packets one after the other. -/
theorem framed_across {asyncmap : ExtAccm} {pool : Pool} {sc : Out} {ms : List Mbufs}
    {bs : List UInt8} (hp : PoolOk pool) (hm : MapOk asyncmap) (rx : In)
    (hr : asyncmap 0 &&& rx.rasyncmap = rx.rasyncmap) (h : Ready rx) (hrej : rx.rejCompAc = false)
    (hwf : ∀ m ∈ ms, WellFormed rx.mru m) (hbs : Framed asyncmap (ms.map (shrink sc)) bs) :
    (feed pool rx bs).got.map List.flatten =
      rx.got.map List.flatten ++ ms.map List.flatten := by
  induction ms generalizing rx bs with
  | nil =>
      cases hbs
      simp [feed]
  | cons m ms ih =>
      cases hbs with
      | cons idle _ hbs =>
          obtain ⟨⟨hi, lo, tl, next, rfl, hhi, hlo⟩, hfits, hshort⟩ := hwf m (by simp)
          obtain ⟨hs, hshrunk, heq⟩ := shrink_shrunk sc hi lo tl next
          have hlen : (((pppAllstations :: pppUi :: hi :: lo :: tl) :: next).flatten).length =
              4 + (tl ++ next.flatten).length := by
            simp
            omega
          rw [hlen] at hfits hshort
          have hdel := frame_across idle hp hm hr h (by simp [hrej]) hhi hlo hshrunk (by omega) hshort
          rw [heq, feed_append]
          generalize feed pool rx (frame asyncmap idle ((hs ++ tl) :: next)) = rx' at hdel ⊢
          rw [ih _ (by rw [hdel.rasyncmap]; exact hr) hdel.toReady (hdel.rejCompAc.trans hrej)
            (fun m' hm' => hdel.mru ▸ hwf m' (List.mem_cons_of_mem _ hm')) hbs, hdel.got]
          simp

/-- The receiver after `pppopen` and any settings. -/
def In.start (rejCompAc : Bool) (rasyncmap : UInt32) (mru : Int) : In :=
  ⟨rejCompAc, rasyncmap, mru, slCompressInit, false, false, 0, 0, [], [], []⟩

/-- The transmitter after `pppopen` and any settings, with packets queued. -/
def Out.start (compProt compAc : Bool) (is : List MapIoctl) (fastq snd : List Mbufs) : Out :=
  ⟨compProt, compAc, false, false, is.foldl ppptioctl pppopenMap, slCompressInit, fastq, snd, none,
    0, []⟩

/-- Packets get across the line, one for one and in order. -/
theorem framing_roundTrip (tty : Tty) (pool : Pool) (hp : PoolOk pool)
    (compProt compAc : Bool) (is : List MapIoctl) (rasyncmap : UInt32) (mru : Int)
    (hr : (is.foldl ppptioctl pppopenMap) 0 &&& rasyncmap = rasyncmap)
    (fastq snd : List Mbufs) (hwf : ∀ m ∈ fastq ++ snd, WellFormed mru m)
    (hfull : (pppWrtTask tty (.start compProt compAc is fastq snd)).line.Full) :
    ((feed pool (.start false rasyncmap mru)
        (pppWrtTask tty (.start compProt compAc is fastq snd)).line.octets).got.map List.flatten) =
      (fastq ++ snd).map List.flatten := by
  rw [pppWrtTask] at hfull ⊢
  obtain ⟨bs, hbs, hline⟩ := wrtLoop_framed (fastq.length + snd.length + 1)
    (.start compProt compAc is fastq snd) rfl rfl (by simp [Out.start]) hfull
  have hacross := framed_across hp (mapOk_ioctls is) (.start false rasyncmap mru) hr
    ⟨rfl, rfl, rfl⟩ rfl hwf hbs
  rw [show (Out.start compProt compAc is fastq snd).fastq = fastq from rfl,
    show (Out.start compProt compAc is fastq snd).snd = snd from rfl, hline]
  exact hacross

/-- Two packets, of which the second is an LCP packet in two mbufs. -/
theorem framing_roundTrip_two :
    ((feed (fun _ _ => some 2048) (.start false 0 1500)
        (pppWrtTask ⟨fun _ n => some n, fun _ => 0⟩ (.start true true []
          [] [[[0xff, 0x03, 0x00, 0x21, 0x45]],
            [[0xff, 0x03, 0xc0, 0x21], [0x01, 0x7e]]])).line.octets).got.map List.flatten) =
      [[[0xff, 0x03, 0x00, 0x21, 0x45]], [[0xff, 0x03, 0xc0, 0x21], [0x01, 0x7e]]].map List.flatten :=
  framing_roundTrip _ _ (fun _ _ => ⟨2048, rfl, by decide⟩) true true [] 0 1500
    (by decide) [] _ (by
      intro m hm
      simp only [List.nil_append, List.mem_cons, List.not_mem_nil, or_false] at hm
      rcases hm with rfl | rfl
      · exact ⟨⟨_, _, _, _, rfl, by decide, by decide⟩, by decide, by decide⟩
      · exact ⟨⟨_, _, _, _, rfl, by decide, by decide⟩, by decide, by decide⟩)
    (by decide +kernel)

/-- A packet with another address is taken for one with a compressed header. -/
theorem framing_other_address :
    ¬ ((feed (fun _ _ => some 2048) (.start false 0 1500)
        (pppWrtTask ⟨fun _ n => some n, fun _ => 0⟩ (.start false false []
          [] [[[0x00, 0x03, 0x00, 0x21, 0x45]]])).line.octets).got.map List.flatten) =
      [[[0x00, 0x03, 0x00, 0x21, 0x45]]].map List.flatten := by
  decide +kernel

end VxWorks.Ppp
