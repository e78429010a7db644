import VxWorks.Lib.Traced

/-!
# String descriptors (usbDescrCopyLib.c)

`usbDescrStrCopy` puts a string descriptor together in a local buffer of 255 octets and
copies as much of it as the caller has room for. A descriptor says in its first octet
how long it is, and so it cannot be longer than 255 octets, that is 126 characters.
Nothing looks at the length of the string: with one character more the last octet of
the descriptor is stored behind the buffer, and the length octet is 0.

The local buffer is the memory of these programs; the caller's buffer is a value.
-/

namespace VxWorks.Usb

open VxWorks.Lib VxWorks.Lib.Traced

/-- The size of the local buffer. -/
def usbMaxDescrLen : Nat := 255

def usbDescrHdrLen : Nat := 2

def usbDescrString : UInt8 := 0x03

/-- What a copy leaves: the caller's buffer, and what is stored at `pActLen`, where that is
not `NULL`. -/
structure DescrCopy (α : Type) where
  bfr : Buf
  actLen : Option α

/-- `usbDescrCopy32`, of the descriptor in the local buffer. -/
def usbDescrCopy32 (pBfr : Buf) (bfrLen : UInt32) (pActLen : Bool) :
    Traced (DescrCopy UInt32) := do
  let length := (← rd8 0).toUInt32
  let bfrLen := if bfrLen < length then bfrLen else length
  let octets ← rdSlice 0 bfrLen.toNat
  pure ⟨pBfr.putAt 0 octets, if pActLen then some bfrLen else none⟩

/-- The loop over the characters, from number `i` on. -/
def copyString : Nat → List UInt8 → Traced Unit
  | _, [] => pure ()
  | i, c :: s => do
      wr8 (usbDescrHdrLen + i * 2) c
      wr8 (usbDescrHdrLen + (i * 2 + 1)) 0
      copyString (i + 1) s

/-- `usbDescrStrCopy32`. -/
def usbDescrStrCopy32 (pBfr : Buf) (pStr : List UInt8) (bfrLen : UInt32) (pActLen : Bool) :
    Traced (DescrCopy UInt32) := do
  wr8 0 (UInt8.ofNat (usbDescrHdrLen + pStr.length * 2))
  wr8 1 usbDescrString
  copyString 0 pStr
  usbDescrCopy32 pBfr bfrLen pActLen

/-- `usbDescrStrCopy`. -/
def usbDescrStrCopy (pBfr : Buf) (pStr : List UInt8) (bfrLen : UInt16) (pActLen : Bool) :
    Traced (DescrCopy UInt16) := do
  let r ← usbDescrStrCopy32 pBfr pStr bfrLen.toUInt32 true
  pure ⟨r.bfr, if pActLen then r.actLen.map UInt32.toUInt16 else none⟩

/-! ## The descriptor -/

/-- A string of ASCII characters as UTF-16, low octet first. -/
def utf16le (s : List UInt8) : List UInt8 := s.flatMap fun c => [c, 0]

/-- The string descriptor of `s`. -/
def stringDescr (s : List UInt8) : List UInt8 :=
  UInt8.ofNat (2 * s.length + 2) :: usbDescrString :: utf16le s

/-- The octets of the descriptor that `bfrLen` has room for. -/
def descrRoom (s : List UInt8) (bfrLen : UInt16) : Nat := min bfrLen.toNat (2 * s.length + 2)

/-- The front of the descriptor is in the caller's buffer and nothing else of it is
touched, its length is reported, and the local buffer is not left. -/
structure StrCopied (s : List UInt8) (bfrLen : UInt16) (pBfr bfr : Buf) : Prop where
  front : (((usbDescrStrCopy pBfr s bfrLen true).run bfr).val.bfr).take (descrRoom s bfrLen) =
    (stringDescr s).take (descrRoom s bfrLen)
  rest : ∀ i, descrRoom s bfrLen ≤ i →
    ((usbDescrStrCopy pBfr s bfrLen true).run bfr).val.bfr i = pBfr i
  count : ((usbDescrStrCopy pBfr s bfrLen true).run bfr).val.actLen.map UInt16.toNat =
    some (descrRoom s bfrLen)
  stores : Stays (Touch.below usbMaxDescrLen) (usbDescrStrCopy pBfr s bfrLen true) bfr

/-! ## The local buffer -/

theorem length_utf16le (s : List UInt8) : (utf16le s).length = 2 * s.length := by
  induction s with
  | nil => rfl
  | cons c s ih =>
      show (utf16le s).length + 1 + 1 = 2 * (s.length + 1)
      rw [ih]
      rfl

theorem length_stringDescr (s : List UInt8) : (stringDescr s).length = 2 * s.length + 2 := by
  rw [stringDescr, List.length_cons, List.length_cons, length_utf16le]

/-- An octet and what follows it. -/
theorem putAt_set8 (b : Buf) (k : Nat) (v : UInt8) (l : List UInt8) :
    (b.set8 k v).putAt (k + 1) l = b.putAt k (v :: l) := by
  funext i
  unfold Buf.putAt Buf.set8
  rw [List.length_cons]
  by_cases hik : i = k
  · subst hik
    rw [if_neg (by omega), if_pos rfl, if_pos (by omega), Nat.sub_self, List.getD_cons_zero]
  · rw [if_neg hik]
    by_cases hin : k + 1 ≤ i ∧ i < k + 1 + l.length
    · obtain ⟨j, rfl⟩ := Nat.exists_eq_add_of_le hin.1
      rw [if_pos hin, if_pos (by omega), Nat.add_sub_cancel_left, Nat.add_assoc,
        Nat.add_sub_cancel_left, Nat.add_comm 1 j, List.getD_cons_succ]
    · rw [if_neg hin, if_neg (by omega)]

theorem copyString_buf (i : Nat) (s : List UInt8) (b : Buf) :
    ((copyString i s).run b).buf = b.putAt (usbDescrHdrLen + i * 2) (utf16le s) := by
  induction s generalizing i b with
  | nil => exact (Buf.putAt_nil b _).symm
  | cons c s ih =>
      rw [copyString, bind_buf, bind_buf, wr8_buf, wr8_buf, ih]
      have hnext : usbDescrHdrLen + (i + 1) * 2 = usbDescrHdrLen + (i * 2 + 1) + 1 := by omega
      rw [hnext, putAt_set8, ← Nat.add_assoc, putAt_set8]
      rfl

/-- The local buffer before the copy holds the descriptor. -/
theorem descr_built (s : List UInt8) (b : Buf) :
    ((copyString 0 s).run ((b.set8 0 (UInt8.ofNat (usbDescrHdrLen + s.length * 2))).set8 1
      usbDescrString)).buf = b.putAt 0 (stringDescr s) := by
  rw [copyString_buf]
  have hlen : usbDescrHdrLen + s.length * 2 = 2 * s.length + 2 := by
    rw [usbDescrHdrLen]
    omega
  show (((b.set8 0 _).set8 1 usbDescrString).putAt (1 + 1) (utf16le s)) = _
  rw [putAt_set8, putAt_set8 b 0, hlen]
  rfl

/-- The loop stores two octets for each character. -/
theorem stays_copyString {ok : Touch → Prop} (i : Nat) (s : List UInt8) (b : Buf) :
    Stays ok (copyString i s) b ↔
      ∀ j < 2 * s.length, ok (.write (usbDescrHdrLen + i * 2 + j)) := by
  induction s generalizing i b with
  | nil =>
      rw [copyString, stays_pure]
      exact iff_of_true trivial fun j hj => absurd hj j.not_lt_zero
  | cons c s ih =>
      rw [copyString, stays_bind, stays_wr8, stays_bind, stays_wr8, ih]
      constructor
      · rintro ⟨hlow, hhigh, hrest⟩ j hj
        match j with
        | 0 => exact hlow
        | 1 => exact hhigh
        | j + 2 =>
            have hj' : j < 2 * s.length := by
              rw [List.length_cons] at hj
              omega
            have hstore := hrest j hj'
            have heq : usbDescrHdrLen + (i + 1) * 2 + j = usbDescrHdrLen + i * 2 + (j + 2) := by
              omega
            rwa [heq] at hstore
      · intro h
        refine ⟨h 0 ?_, h 1 ?_, ?_⟩
        · exact Nat.mul_pos Nat.two_pos (Nat.succ_pos _)
        · rw [List.length_cons]
          omega
        · intro j hj
          have hstore := h (j + 2) (by rw [List.length_cons]; omega)
          have heq : usbDescrHdrLen + i * 2 + (j + 2) = usbDescrHdrLen + (i + 1) * 2 + j := by
            omega
          rwa [heq] at hstore

/-- The stores stay in the local buffer up to 126 characters. -/
theorem stores_iff (s : List UInt8) (b : Buf) :
    Stays (Touch.below usbMaxDescrLen) (copyString 0 s) b ↔ s.length ≤ 126 := by
  rw [stays_copyString]
  simp only [Touch.below_write, usbDescrHdrLen, usbMaxDescrLen]
  constructor
  · intro h
    by_contra hlong
    have hlast := h 253 (by omega)
    exact absurd hlast (by decide)
  · intro h j hj
    omega

/-! ## The copy -/

/-- What `usbDescrCopy32` takes as the length of the copy. -/
def copyLen (s : List UInt8) (bfrLen : UInt16) : UInt32 :=
  let length := (UInt8.ofNat (2 * s.length + 2)).toUInt32
  if bfrLen.toUInt32 < length then bfrLen.toUInt32 else length

/-- What `usbDescrStrCopy` leaves, for a string of any length. -/
theorem usbDescrStrCopy_val (pBfr : Buf) (s : List UInt8) (bfrLen : UInt16) (b : Buf) :
    ((usbDescrStrCopy pBfr s bfrLen true).run b).val =
      ⟨pBfr.putAt 0 ((b.putAt 0 (stringDescr s)).slice 0 (copyLen s bfrLen).toNat),
        some (copyLen s bfrLen).toUInt16⟩ := by
  have hlength : (b.putAt 0 (stringDescr s)) 0 = UInt8.ofNat (2 * s.length + 2) :=
    if_pos ⟨le_rfl, Nat.succ_pos _⟩
  rw [usbDescrStrCopy, usbDescrStrCopy32]
  simp only [bind_val, bind_buf, wr8_buf, descr_built, usbDescrCopy32, rd8_val, rd8_buf,
    rdSlice_val, pure_val, hlength]
  rfl

theorem usbDescrStrCopy_stays {ok : Touch → Prop} (pBfr : Buf) (s : List UInt8)
    (bfrLen : UInt16) (b : Buf) :
    Stays ok (usbDescrStrCopy pBfr s bfrLen true) b ↔
      ok (.write 0) ∧ ok (.write 1) ∧ (∀ j < 2 * s.length, ok (.write (usbDescrHdrLen + j))) ∧
        ok (.read 0) ∧ ∀ j < (copyLen s bfrLen).toNat, ok (.read j) := by
  have hlength : (b.putAt 0 (stringDescr s)) 0 = UInt8.ofNat (2 * s.length + 2) :=
    if_pos ⟨le_rfl, Nat.succ_pos _⟩
  rw [usbDescrStrCopy, usbDescrStrCopy32]
  simp only [stays_bind, stays_wr8, stays_copyString, stays_pure, and_true, wr8_buf, bind_buf,
    descr_built, usbDescrCopy32, stays_rd8, rd8_buf, rd8_val, hlength, stays_rdSlice,
    Nat.zero_mul, Nat.add_zero, Nat.zero_add]
  exact Iff.rfl

/-- Up to 126 characters the length octet is the length. -/
theorem copyLen_toNat {s : List UInt8} (hs : s.length ≤ 126) (bfrLen : UInt16) :
    (copyLen s bfrLen).toNat = descrRoom s bfrLen := by
  have hlength : (UInt8.ofNat (2 * s.length + 2)).toUInt32.toNat = 2 * s.length + 2 := by
    rw [UInt8.toNat_toUInt32, UInt8.toNat_ofNat', Nat.mod_eq_of_lt (by omega)]
  unfold copyLen descrRoom
  dsimp only
  split
  · next hlt =>
      rw [UInt32.lt_iff_toNat_lt, hlength, UInt16.toNat_toUInt32] at hlt
      rw [UInt16.toNat_toUInt32, min_eq_left hlt.le]
  · next hge =>
      rw [UInt32.lt_iff_toNat_lt, hlength, UInt16.toNat_toUInt32] at hge
      rw [hlength, min_eq_right (Nat.le_of_not_lt hge)]

/-- The front of a list that has been put into a buffer. -/
theorem slice_putAt_take (b : Buf) {l : List UInt8} {n : Nat} (hn : n ≤ l.length) :
    (b.putAt 0 l).slice 0 n = l.take n := by
  rw [← Buf.take_slice (b.putAt 0 l) 0 hn, Buf.slice_putAt_same]

/-- `usbDescrStrCopy` does what its header says, within its local buffer, exactly up to
126 characters. -/
theorem usbDescrStrCopy_right_iff (s : List UInt8) (bfrLen : UInt16) (pBfr bfr : Buf) :
    StrCopied s bfrLen pBfr bfr ↔ s.length ≤ 126 := by
  constructor
  · intro h
    rw [← stores_iff s bfr, stays_copyString]
    exact ((usbDescrStrCopy_stays pBfr s bfrLen bfr).mp h.stores).2.2.1
  · intro hs
    have hk := copyLen_toNat hs bfrLen
    have hroom : descrRoom s bfrLen ≤ 2 * s.length + 2 := min_le_right _ _
    have hfits : descrRoom s bfrLen ≤ (stringDescr s).length := by
      rwa [length_stringDescr]
    refine ⟨?_, ?_, ?_, ?_⟩
    · rw [usbDescrStrCopy_val, hk, slice_putAt_take bfr hfits, ← Buf.slice_zero_eq_take]
      exact Buf.slice_putAt_of_length (List.length_take_of_le hfits)
    · intro i hi
      rw [usbDescrStrCopy_val, hk]
      refine Buf.putAt_of_ge _ ?_
      rwa [Buf.length_slice, Nat.zero_add]
    · rw [usbDescrStrCopy_val, Option.map_some, UInt32.toNat_toUInt16, hk, Nat.mod_eq_of_lt]
      omega
    · have hstores := (stays_copyString 0 s bfr).mp ((stores_iff s bfr).mpr hs)
      refine (usbDescrStrCopy_stays pBfr s bfrLen bfr).mpr
        ⟨by decide, by decide, hstores, by decide, fun j hj => ?_⟩
      rw [hk] at hj
      show j < 255
      omega

/-- A string of 127 characters: the length octet is 0, and nothing is copied. -/
theorem long_string_lost :
    ¬ ∀ (s : List UInt8) (bfrLen : UInt16) (pBfr bfr : Buf),
      (∀ c ∈ s, c ≠ 0 ∧ c < 128) → StrCopied s bfrLen pBfr bfr := by
  intro h
  have hcopied := h (List.replicate 127 0x41) 255 (fun _ => 0) (fun _ => 0) fun c hc => by
    rw [List.eq_of_mem_replicate hc]
    decide
  have hcount := hcopied.count
  rw [usbDescrStrCopy_val] at hcount
  have hzero : (copyLen (List.replicate 127 0x41) 255).toUInt16.toNat = 0 := by
    rw [copyLen, List.length_replicate]
    rfl
  have hroom : descrRoom (List.replicate 127 0x41) 255 = 255 := by
    rw [descrRoom, List.length_replicate]
    rfl
  rw [Option.map_some, hzero, hroom] at hcount
  cases hcount

end VxWorks.Usb
