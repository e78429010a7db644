import VxWorks.Lib.Buffer

/-!
# Copying a chain in units (if_subr.c)

`copyFromMbufs` copies a chain of mbufs to the memory of a device, which may be
one that can be written in units of two or four octets only. Where an mbuf ends
inside a unit the unit is written with whatever lies behind the mbuf, and for the
next mbuf the copy steps back to the start of the unit, reads it, puts what it
has behind the octets that count, and writes it again. An mbuf that is shorter
than what the unit lacks leaves a length below zero, and the two's complement of
it says how many octets of the unit count now.

The destination is aligned, and a place in it is the distance from its start. The
source of a copy is the memory from `m_data` on, which goes on behind the mbuf's
data.
-/

namespace VxWorks.Netinet

open VxWorks.Lib

/-! ## The code -/

/-- An mbuf: `m_len` and the memory from `m_data` on. -/
structure SrcMbuf where
  len : Nat
  mem : Buf

def SrcMbuf.data (m : SrcMbuf) : List UInt8 := m.mem.take m.len

/-- The buffer, `pBuf` and `odd`. -/
structure CopyOut where
  buf : Buf
  pBuf : Int
  odd : Int

/-- `bcopyWords` and `bcopyLongs`: `n` units of `width` octets. -/
def bcopyUnits (width : Nat) (src : Buf) (adjBuf : Nat) (s : CopyOut) (n : Int) : Buf :=
  s.buf.putAt s.pBuf.toNat (src.slice adjBuf (width * n.toNat))

/-- The loop `for (ix = odd; ix < 4; ix++, adjBuf++, --adjLen)`, over that many rounds. -/
def fillTemp (src : Buf) : Nat → Nat → Nat → Buf → Buf
  | 0, _, _, temp => temp
  | n + 1, ix, adjBuf, temp => fillTemp src n (ix + 1) (adjBuf + 1) (temp.set8 ix (src adjBuf))

/-- `bcopy` or `bcopyBytes` of an mbuf. -/
def copyMbuf (m : SrcMbuf) (s : CopyOut) : CopyOut :=
  { s with buf := s.buf.putAt s.pBuf.toNat (m.mem.slice 0 m.len), pBuf := s.pBuf + m.len }

/-- An mbuf where `width` is 2. -/
def copyMbufWords (m : SrcMbuf) (s : CopyOut) : CopyOut :=
  let (s, adjBuf, adjLen) :=
    if 0 < s.odd then
      let pBuf := s.pBuf - 1
      let temp := Buf.of (s.buf.slice pBuf.toNat 2)
      let temp := temp.set8 1 (m.mem 0)
      ({ s with buf := s.buf.putAt pBuf.toNat (temp.take 2), pBuf := pBuf + 2 }, 1, (m.len : Int) - 1)
    else (s, 0, (m.len : Int))
  { buf := bcopyUnits 2 m.mem adjBuf s ((adjLen + 1) / 2), pBuf := s.pBuf + adjLen
    odd := adjLen % 2 }

/-- An mbuf where `width` is 4. -/
def copyMbufLongs (m : SrcMbuf) (s : CopyOut) : CopyOut :=
  let (s, adjBuf, adjLen) :=
    if 0 < s.odd then
      let pBuf := s.pBuf - s.odd
      let temp := Buf.of (s.buf.slice pBuf.toNat 4)
      let rounds := (4 - s.odd).toNat
      let temp := fillTemp m.mem rounds s.odd.toNat 0 temp
      ({ s with buf := s.buf.putAt pBuf.toNat (temp.take 4), pBuf := pBuf + 4 }, rounds,
        (m.len : Int) - rounds)
    else (s, 0, (m.len : Int))
  { buf := bcopyUnits 4 m.mem adjBuf s ((adjLen + 3) / 4), pBuf := s.pBuf + adjLen
    odd := adjLen % 4 }

/-- `copyFromMbufs`: the buffer and the length copied; other widths are a `panic`. -/
def copyFromMbufs (pIoBuf : Buf) (ms : List SrcMbuf) (width : Int) : Option (Buf × Int) :=
  let copied (step : SrcMbuf → CopyOut → CopyOut) : Option (Buf × Int) :=
    let s := ms.foldl (fun s m => step m s) ⟨pIoBuf, 0, 0⟩
    some (s.buf, s.pBuf)
  if width = -1 then copied copyMbuf
  else if width = 1 then copied copyMbuf
  else if width = 2 then copied copyMbufWords
  else if width = 4 then copied copyMbufLongs
  else none

/-! ## Units -/

/-- One mbuf in units of `width`. -/
def copyMbufUnits (width : Nat) (m : SrcMbuf) (s : CopyOut) : CopyOut :=
  let (s, adjBuf, adjLen) :=
    if 0 < s.odd then
      let pBuf := s.pBuf - s.odd
      let temp := Buf.of (s.buf.slice pBuf.toNat width)
      let rounds := (width - s.odd).toNat
      let temp := fillTemp m.mem rounds s.odd.toNat 0 temp
      ({ s with buf := s.buf.putAt pBuf.toNat (temp.take width), pBuf := pBuf + width }, rounds,
        (m.len : Int) - rounds)
    else (s, 0, (m.len : Int))
  { buf := bcopyUnits width m.mem adjBuf s ((adjLen + (width - 1)) / width), pBuf := s.pBuf + adjLen
    odd := adjLen % width }

/-- The octets of `l` are copied, and nothing behind them but what the last unit takes. -/
structure Copied (width : Nat) (b : Buf) (l : List UInt8) (s : CopyOut) : Prop where
  pBuf : s.pBuf = l.length
  odd : s.odd = (l.length : Int) % width
  holds : s.buf.Holds 0 l
  frame : ∀ i, l.length + (width - 1) ≤ i → s.buf i = b i

theorem fillTemp_apply (src : Buf) (n ix adjBuf : Nat) (temp : Buf) (i : Nat) :
    fillTemp src n ix adjBuf temp i =
      if ix ≤ i ∧ i < ix + n then src (adjBuf + (i - ix)) else temp i := by
  induction n generalizing ix adjBuf temp with
  | zero =>
      rw [fillTemp, if_neg (by omega)]
  | succ n ih =>
      rw [fillTemp, ih]
      by_cases hlater : ix + 1 ≤ i ∧ i < ix + 1 + n
      · rw [if_pos hlater, if_pos (by omega)]
        congr 1
        omega
      · rw [if_neg hlater]
        by_cases hfirst : i = ix
        · rw [if_pos (by omega), hfirst, Buf.set8_same, Nat.sub_self]
          rfl
        · rw [if_neg (by omega), Buf.set8_of_ne _ hfirst]

@[simp] theorem length_data (m : SrcMbuf) : m.data.length = m.len :=
  Buf.length_take m.mem m.len

/-- What an mbuf must do to the buffer. -/
theorem Copied.append {width : Nat} {b : Buf} {l : List UInt8} {s s' : CopyOut} {m : SrcMbuf}
    (h : Copied width b l s) (hpBuf : s'.pBuf = s.pBuf + m.len)
    (hodd : s'.odd = (s.pBuf + m.len) % width) (hold : ∀ i < l.length, s'.buf i = s.buf i)
    (hnew : ∀ i < m.len, s'.buf (l.length + i) = m.mem i)
    (hframe : ∀ i, l.length + m.len + (width - 1) ≤ i → s'.buf i = s.buf i) :
    Copied width b (l ++ m.data) s' := by
  have hlen : ((l ++ m.data).length : Int) = s.pBuf + m.len := by
    rw [List.length_append, length_data, h.pBuf, Nat.cast_add]
  refine ⟨hpBuf.trans hlen.symm, by rw [hodd, hlen], ?_, fun i hi => ?_⟩
  · refine Buf.holds_append.mpr ⟨?_, ?_⟩
    · intro i hi
      rw [Nat.zero_add, hold i hi, ← h.holds i hi, Nat.zero_add]
    · intro i hi
      rw [length_data] at hi
      rw [Nat.zero_add, hnew i hi]
      simp [SrcMbuf.data, Buf.take]
  · rw [List.length_append, length_data] at hi
    rw [hframe i hi, h.frame i (by omega)]

/-- As many units as it takes, and no more. -/
theorem units_spec {width : Nat} (hwidth : 0 < width) {adjLen : Int} (h : -(width : Int) < adjLen) :
    adjLen ≤ (width * ((adjLen + (width - 1)) / width).toNat : Nat) ∧
      ((width * ((adjLen + (width - 1)) / width).toNat : Nat) : Int) ≤ adjLen + (width - 1) := by
  have hpos : (0 : Int) < width := by omega
  have hdiv := Int.mul_ediv_add_emod (adjLen + (width - 1)) width
  have hmod := Int.emod_lt_of_pos (adjLen + (width - 1)) hpos
  have hmod' := Int.emod_nonneg (adjLen + (width - 1)) (Int.ne_of_gt hpos)
  have hnonneg : 0 ≤ (adjLen + (width - 1)) / width := Int.ediv_nonneg (by omega) (by omega)
  rw [Nat.cast_mul, Int.toNat_of_nonneg hnonneg]
  omega

/-- An mbuf that begins with a unit. -/
theorem copied_units {width : Nat} (hwidth : 0 < width) {b : Buf} {l : List UInt8} {s s' : CopyOut}
    (h : Copied width b l s) (m : SrcMbuf) {adjBuf : Nat} (hmid : s'.pBuf = l.length + adjBuf)
    (hodd : ((m.len : Int) - adjBuf) % width = (s.pBuf + m.len) % width)
    (hshort : -(width : Int) < m.len - adjBuf) (hold : ∀ i < l.length, s'.buf i = s.buf i)
    (hnew : ∀ i < adjBuf, s'.buf (l.length + i) = m.mem i)
    (hframe : ∀ i, l.length + adjBuf ≤ i → s'.buf i = s.buf i) :
    Copied width b (l ++ m.data)
      { buf := bcopyUnits width m.mem adjBuf s' (((m.len : Int) - adjBuf + (width - 1)) / width)
        pBuf := s'.pBuf + (m.len - adjBuf), odd := ((m.len : Int) - adjBuf) % width } := by
  have hpBuf := h.pBuf
  have hat : s'.pBuf.toNat = l.length + adjBuf := by omega
  obtain ⟨hle, hge⟩ := units_spec hwidth hshort
  generalize hn : width * (((m.len : Int) - adjBuf + (width - 1)) / width).toNat = n at hle hge
  have hbuf : ∀ i, bcopyUnits width m.mem adjBuf s'
      (((m.len : Int) - adjBuf + (width - 1)) / width) i =
      if l.length + adjBuf ≤ i ∧ i < l.length + adjBuf + n then
        m.mem (adjBuf + (i - (l.length + adjBuf))) else s'.buf i := by
    intro i
    rw [bcopyUnits, hat, hn, Buf.putAt_slice_apply]
  refine h.append ?_ hodd ?_ ?_ ?_
  · show s'.pBuf + ((m.len : Int) - adjBuf) = s.pBuf + m.len
    omega
  · intro i hi
    show bcopyUnits _ _ _ _ _ i = _
    rw [hbuf, if_neg (by omega), hold i hi]
  · intro i hi
    show bcopyUnits _ _ _ _ _ (l.length + i) = _
    rw [hbuf]
    by_cases hfirst : i < adjBuf
    · rw [if_neg (by omega), hnew i hfirst]
    · rw [if_pos (by omega)]
      congr 1
      omega
  · intro i hi
    show bcopyUnits _ _ _ _ _ i = _
    rw [hbuf, if_neg (by omega), hframe i (by omega)]

/-- The mbuf that ends inside the unit that the one before has begun included. -/
theorem copyMbufUnits_copied {width : Nat} (hwidth : 0 < width) {b : Buf} {l : List UInt8}
    {s : CopyOut} (h : Copied width b l s) (m : SrcMbuf) :
    Copied width b (l ++ m.data) (copyMbufUnits width m s) := by
  have hpBuf := h.pBuf
  have hmod := h.odd
  have hpos : (0 : Int) < width := by omega
  have hlt := Int.emod_lt_of_pos (l.length : Int) hpos
  have hnonneg := Int.emod_nonneg (l.length : Int) (Int.ne_of_gt hpos)
  have hdiv := Int.mul_ediv_add_emod (l.length : Int) width
  have hquot : 0 ≤ (width : Int) * ((l.length : Int) / width) :=
    Int.mul_nonneg (by omega) (Int.ediv_nonneg (by omega) (by omega))
  generalize hq : (l.length : Int) / width = q at hdiv hquot
  rw [← hmod] at hlt hdiv hnonneg
  rw [copyMbufUnits]
  by_cases hodd : 0 < s.odd
  · obtain ⟨odd, hoddn⟩ : ∃ odd : Nat, s.odd = odd := ⟨s.odd.toNat, by omega⟩
    obtain ⟨base, hbase⟩ : ∃ base : Nat, s.pBuf - s.odd = base := ⟨(s.pBuf - s.odd).toNat, by omega⟩
    have hlong : l.length = base + odd := by omega
    have hrounds : (width - s.odd).toNat = width - odd := by omega
    have hadj : s.pBuf - s.odd + width = l.length + (width - odd : Nat) := by omega
    have hunit : ∀ i, (s.buf.putAt base ((fillTemp m.mem (width - odd) odd 0
        (Buf.of (s.buf.slice base width))).take width)) i =
        if l.length ≤ i ∧ i < base + width then m.mem (i - l.length) else s.buf i := by
      intro i
      rw [← Buf.slice_zero_eq_take, Buf.putAt_slice_apply, Nat.zero_add, fillTemp_apply]
      by_cases hin : l.length ≤ i ∧ i < base + width
      · rw [if_pos hin, if_pos (by omega), if_pos (by omega)]
        congr 1
        omega
      · rw [if_neg hin]
        by_cases hunit : base ≤ i ∧ i < base + width
        · rw [if_pos hunit, if_neg (by omega), Buf.of_lt (by rw [Buf.length_slice]; omega)]
          simp only [Buf.slice, List.getElem_map, List.getElem_range]
          congr 1
          omega
        · rw [if_neg hunit]
    rw [if_pos hodd, hrounds, hbase, hoddn]
    dsimp only [Int.toNat_natCast]
    rw [hbase] at hadj
    refine copied_units hwidth h m hadj ?_ (by omega) ?_ ?_ ?_
    · have hwhole : s.pBuf + m.len = (m.len : Int) - (width - odd : Nat) + width * (q + 1) := by
        rw [Int.mul_add, Int.mul_one]
        omega
      rw [hwhole, Int.add_mul_emod_self_left]
    · intro i hi
      exact (hunit i).trans (if_neg (by omega))
    · intro i hi
      refine (hunit (l.length + i)).trans ?_
      rw [if_pos (by omega), Nat.add_sub_cancel_left]
    · intro i hi
      exact (hunit i).trans (if_neg (by omega))
  · rw [if_neg hodd]
    have hzero : s.odd = 0 := by omega
    have hwhole : s.pBuf + m.len = (m.len : Int) - (0 : Nat) + width * q := by omega
    have hmid : s.pBuf = l.length + (0 : Nat) := by omega
    have hcopied := copied_units hwidth h m hmid
      (by rw [hwhole, Int.add_mul_emod_self_left]) (by omega) (fun _ _ => rfl)
      (fun i hi => absurd hi (Nat.not_lt_zero i)) (fun _ _ => rfl)
    simpa using hcopied

theorem copyMbufWords_eq {b : Buf} {l : List UInt8} {s : CopyOut} (h : Copied 2 b l s)
    (m : SrcMbuf) : copyMbufWords m s = copyMbufUnits 2 m s := by
  have hodd := h.odd
  rw [copyMbufWords, copyMbufUnits]
  by_cases hpos : 0 < s.odd
  · have hone : s.odd = 1 := by omega
    rw [if_pos hpos, if_pos hpos, hone]
    rfl
  · rw [if_neg hpos, if_neg hpos]
    rfl

theorem copyMbuf_copied {b : Buf} {l : List UInt8} {s : CopyOut} (h : Copied 1 b l s)
    (m : SrcMbuf) : Copied 1 b (l ++ m.data) (copyMbuf m s) := by
  have hpBuf := h.pBuf
  have hodd := h.odd
  have hat : s.pBuf.toNat = l.length := by omega
  have hbuf : ∀ i, (copyMbuf m s).buf i =
      if l.length ≤ i ∧ i < l.length + m.len then m.mem (i - l.length) else s.buf i := by
    intro i
    rw [copyMbuf, hat]
    dsimp only
    rw [Buf.putAt_slice_apply, Nat.zero_add]
  refine h.append rfl ?_ ?_ ?_ ?_
  · show s.odd = _
    omega
  · intro i hi
    rw [hbuf, if_neg (by omega)]
  · intro i hi
    rw [hbuf, if_pos (by omega), Nat.add_sub_cancel_left]
  · intro i hi
    rw [hbuf, if_neg (by omega)]

/-! ## The chain -/

theorem copied_nil (width : Nat) (b : Buf) : Copied width b [] ⟨b, 0, 0⟩ :=
  ⟨rfl, (Int.zero_emod _).symm, fun i hi => absurd hi (Nat.not_lt_zero i), fun _ _ => rfl⟩

/-- What one mbuf does right a chain does right. -/
theorem copied_chain {width : Nat} {b : Buf} {step : SrcMbuf → CopyOut → CopyOut}
    (hstep : ∀ l s m, Copied width b l s → Copied width b (l ++ m.data) (step m s))
    (ms : List SrcMbuf) {l : List UInt8} {s : CopyOut} (h : Copied width b l s) :
    Copied width b (l ++ ms.flatMap SrcMbuf.data) (ms.foldl (fun s m => step m s) s) := by
  induction ms generalizing l s with
  | nil => simpa using h
  | cons m ms ih =>
      rw [List.foldl_cons, List.flatMap_cons, ← List.append_assoc]
      exact ih (hstep l s m h)

/-- The octets of a width, and those behind the data that a copy of that width may write. -/
def slack (width : Int) : Nat := width.toNat - 1

/-- Whatever the width, the chain's data are at the start of the buffer, and nothing behind them is
changed but the slack; the length is that of the data. -/
theorem copyFromMbufs_copies (b : Buf) (ms : List SrcMbuf) :
    ∀ width ∈ ([-1, 1, 2, 4] : List Int), ∃ b' : Buf, copyFromMbufs b ms width =
        some (b', ((ms.flatMap SrcMbuf.data).length : Int)) ∧
      b'.take (ms.flatMap SrcMbuf.data).length = ms.flatMap SrcMbuf.data ∧
      ∀ i, (ms.flatMap SrcMbuf.data).length + slack width ≤ i → b' i = b i := by
  have hall : ∀ (width : Nat) (s : CopyOut), Copied width b (ms.flatMap SrcMbuf.data) s →
      ∃ b' : Buf, some (s.buf, s.pBuf) = some (b', ((ms.flatMap SrcMbuf.data).length : Int)) ∧
        b'.take (ms.flatMap SrcMbuf.data).length = ms.flatMap SrcMbuf.data ∧
        ∀ i, (ms.flatMap SrcMbuf.data).length + (width - 1) ≤ i → b' i = b i := by
    intro width s h
    refine ⟨s.buf, by rw [h.pBuf], ?_, h.frame⟩
    refine List.ext_getElem (Buf.length_take ..) ?_
    intro i hi hi'
    have hat := h.holds i hi'
    rw [Nat.zero_add] at hat
    simpa [Buf.take] using hat
  have hbytes := copied_chain (fun l s m h => copyMbuf_copied h m) ms (copied_nil 1 b)
  intro width hwidth
  simp only [List.mem_cons, List.not_mem_nil, or_false] at hwidth
  rcases hwidth with rfl | rfl | rfl | rfl
  · exact hall 1 _ hbytes
  · exact hall 1 _ hbytes
  · refine hall 2 _ (copied_chain ?_ ms (copied_nil 2 b))
    intro l s m h
    rw [copyMbufWords_eq h]
    exact copyMbufUnits_copied (by decide) h m
  · exact hall 4 _ (copied_chain (fun l s m h => copyMbufUnits_copied (by decide) h m) ms
      (copied_nil 4 b))

/-- Pieces of one octet, of none and of two in units of four. -/
theorem copyFromMbufs_copies_pieces :
    ∃ b', copyFromMbufs (fun _ => 9)
          [⟨1, Buf.of [1, 7, 7, 7]⟩, ⟨0, fun _ => 8⟩, ⟨2, Buf.of [2, 3]⟩] 4 =
        some (b', 3) ∧ b'.take 3 = [1, 2, 3] ∧ ∀ i, 6 ≤ i → b' i = 9 :=
  copyFromMbufs_copies _ _ 4 (by decide)

end VxWorks.Netinet
