import VxWorks.Lib.Traced
import VxWorks.Netinet.IfEther

/-!
# ARP packets in their mbuf (if_ether.c)

`arpintr` looks at the lengths that a packet says its addresses have, and hands it to
`in_arpinput`, for which they are 6 and 4 octets, at fixed places. The answer to a request is
made in the same octets: what the sender had goes to the target, and the address that was asked
for takes the sender's place.

Addresses are four octets in network order. Of an entry only `sdl_alen` and the octets at
`LLADDR` are read; the lengths that are ever set are 0 and 6. `proxyArpHook` may have changed
the packet before; what is said here is about the packet as it leaves it.
-/

namespace VxWorks.Netinet

open VxWorks.Lib VxWorks.Lib.Traced

/-! ## The code -/

/-- The gateway of an entry. -/
structure ArpSdl where
  alen : Nat
  lladdr : List UInt8
  alen_le : alen ≤ 6
  length_lladdr : lladdr.length = 6

/-- `arplookup` for an address, with and without `create`, and with `SIN_PROXY`. -/
structure ArpSdls where
  entries : UInt32 → Bool → Option ArpSdl
  proxies : UInt32 → Option ArpSdl

def arpopReply : UInt16 := 2

def arphrdEther : UInt16 := 1

def ethertypeIp : UInt16 := 0x0800

def ethertypeIptrailers : UInt16 := 0x1000

/-- Where the fields are. -/
def arHrdAt : Nat := 0

def arProAt : Nat := 2

def arHlnAt : Nat := 4

def arPlnAt : Nat := 5

def arOpAt : Nat := 6

def arpShaAt : Nat := 8

def arpSpaAt : Nat := 14

def arpThaAt : Nat := 18

def arpTpaAt : Nat := 24

/-- `myaddr`, from the two addresses in the packet. -/
def arpMyaddrOf (ac : Arpcom) (isaddr itaddr : UInt32) : Option UInt32 :=
  let own := (ac.inIfaddr.filter fun ia => ia.ifp == ac.ifp).map InIfaddr.addr
  match own.find? (fun addr => itaddr == addr || isaddr == addr) with
  | some addr => some addr
  | none => own.getLast?

/-- The sender's address against the one of its entry; a change is logged. -/
def arpCompareT (sdl : ArpSdl) : Traced Unit :=
  if sdl.alen = 0 then pure ()
  else do
    let sha ← rdSlice arpShaAt sdl.alen
    if sha = sdl.lladdr.take sdl.alen then pure ()
    else do
      let _ ← rdSlice arpShaAt 6
      pure ()

/-- The sender's entry, as far as the packet is read for it. -/
def arpLearnT : Option ArpSdl → Traced Unit
  | none => pure ()
  | some sdl => do
      arpCompareT sdl
      let _ ← rdSlice arpShaAt 6
      pure ()

/-- The end of `in_arpinput`: the answer, with `lladdr` for the sender, and where it goes. -/
def arpAnswerT (lladdr : List UInt8) (itaddr : UInt32) : Traced (Option (List UInt8)) := do
  let sha ← rdSlice arpShaAt 6
  wrSlice arpThaAt sha
  wrSlice arpShaAt lladdr
  let spa ← rdSlice arpSpaAt 4
  wrSlice arpTpaAt spa
  wrSlice arpSpaAt (put32 itaddr)
  wrSlice arOpAt (put16 arpopReply)
  wrSlice arProAt (put16 ethertypeIp)
  let tha ← rdSlice arpThaAt 6
  pure (some tha)

/-- From `reply:` on. -/
def arpReplyT (ac : Arpcom) (t : ArpSdls) (op : UInt16) (itaddr myaddr : UInt32) :
    Traced (Option (List UInt8)) :=
  if op ≠ arpopRequest then pure none
  else if itaddr = myaddr then arpAnswerT ac.enaddr itaddr
  else
    match t.proxies itaddr with
    | none => pure none
    | some sdl => arpAnswerT sdl.lladdr itaddr

/-- `in_arpinput`: where the answer goes, if there is one. -/
def inArpinputT (ac : Arpcom) (t : ArpSdls) : Traced (Option (List UInt8)) := do
  let op ← rd16 arOpAt
  let isaddr ← rd32 arpSpaAt
  let itaddr ← rd32 arpTpaAt
  match arpMyaddrOf ac isaddr itaddr with
  | none => pure none
  | some myaddr => do
      let sha ← rdSlice arpShaAt 6
      if sha = ac.enaddr then pure none
      else do
        let sha ← rdSlice arpShaAt 6
        if sha = etherbroadcastaddr then pure none
        else if isaddr = myaddr then do
          let _ ← rdSlice arpShaAt 6
          arpReplyT ac t op myaddr myaddr
        else do
          arpLearnT (t.entries isaddr (itaddr == myaddr))
          arpReplyT ac t op itaddr myaddr

/-- `arpintr`, for one packet of `mLen` octets. -/
def arpintrT (ac : Arpcom) (t : ArpSdls) (mLen : Nat) : Traced (Option (List UInt8)) :=
  if mLen < 8 then pure none
  else do
    let hrd ← rd16 arHrdAt
    if hrd ≠ arphrdEther then pure none
    else do
      let hln ← rd8 arHlnAt
      let pln ← rd8 arPlnAt
      if mLen < 8 + 2 * (hln.toNat + pln.toNat) then pure none
      else do
        let pro ← rd16 arProAt
        if pro = ethertypeIp ∨ pro = ethertypeIptrailers then inArpinputT ac t else pure none

/-! ## The answer -/

/-- The request with sender and target swapped: the sender is now `itaddr` at `lladdr`. -/
def arpSwapped (b : Buf) (lladdr : List UInt8) (itaddr : UInt32) : List UInt8 :=
  b.slice arHrdAt 2 ++ put16 ethertypeIp ++ b.slice arHlnAt 2 ++ put16 arpopReply ++
    lladdr ++ put32 itaddr ++ b.slice arpShaAt 6 ++ b.slice arpSpaAt 4

/-- The address that the answer is about: the one that was asked for, or our own if the sender
says it is his. -/
def arpItaddr (b : Buf) (myaddr : UInt32) : UInt32 :=
  if b.u32 arpSpaAt = myaddr then myaddr else b.u32 arpTpaAt

/-- `b'` is the answer to the request `b`, for `dst`. -/
structure ArpAnswers (ac : Arpcom) (t : ArpSdls) (b : Buf) (dst : List UInt8) (b' : Buf) :
    Prop where
  request : b.u16 arOpAt = arpopRequest
  dst_eq : dst = b.slice arpShaAt 6
  frame : ∀ k, 28 ≤ k → b' k = b k
  swapped : ∃ myaddr lladdr, arpMyaddrOf ac (b.u32 arpSpaAt) (b.u32 arpTpaAt) = some myaddr ∧
    b'.take 28 = arpSwapped b lladdr (arpItaddr b myaddr) ∧
    (arpItaddr b myaddr = myaddr ∧ lladdr = ac.enaddr ∨
      arpItaddr b myaddr ≠ myaddr ∧
        ∃ sdl, t.proxies (arpItaddr b myaddr) = some sdl ∧ lladdr = sdl.lladdr)

section

variable {ac : Arpcom} {t : ArpSdls} {b : Buf} {mLen : Nat}

/-- What `arpAnswerT` makes of the packet. -/
def arpAnswer (b : Buf) (lladdr : List UInt8) (itaddr : UInt32) : Buf :=
  (((((b.putAt arpThaAt (b.slice arpShaAt 6)).putAt arpShaAt lladdr).putAt arpTpaAt
    (b.slice arpSpaAt 4)).putAt arpSpaAt (put32 itaddr)).putAt arOpAt (put16 arpopReply)).putAt
    arProAt (put16 ethertypeIp)

theorem slice_arpSpa {lladdr : List UInt8} (h : lladdr.length = 6) :
    ((b.putAt arpThaAt (b.slice arpShaAt 6)).putAt arpShaAt lladdr).slice arpSpaAt 4 =
      b.slice arpSpaAt 4 := by
  rw [Buf.slice_putAt_apart _ (.inr (by rw [h]; decide)), Buf.slice_putAt_apart _ (.inl (by decide))]

theorem arpAnswerT_buf {lladdr : List UInt8} (h : lladdr.length = 6) (itaddr : UInt32) :
    ((arpAnswerT lladdr itaddr).run b).buf = arpAnswer b lladdr itaddr := by
  simp only [arpAnswerT, bind_buf, rdSlice_val, rdSlice_buf, wrSlice_buf, pure_buf]
  rw [slice_arpSpa h, arpAnswer]

theorem slice_arpAnswer_sha {lladdr : List UInt8} (h : lladdr.length = 6) (itaddr : UInt32) :
    (arpAnswer b lladdr itaddr).slice arpShaAt 6 = lladdr := by
  rw [arpAnswer, Buf.slice_putAt_apart _ (.inr (by decide)),
    Buf.slice_putAt_apart _ (.inr (by decide)), Buf.slice_putAt_apart _ (.inl (by decide)),
    Buf.slice_putAt_apart _ (.inl (by decide)), Buf.slice_putAt_of_length h]

theorem slice_arpAnswer_spa (lladdr : List UInt8) (itaddr : UInt32) :
    (arpAnswer b lladdr itaddr).slice arpSpaAt 4 = put32 itaddr := by
  rw [arpAnswer, Buf.slice_putAt_apart _ (.inr (by decide)),
    Buf.slice_putAt_apart _ (.inr (by decide)), Buf.slice_putAt_of_length (length_put32 _)]

theorem slice_arpAnswer_tpa (lladdr : List UInt8) (itaddr : UInt32) :
    (arpAnswer b lladdr itaddr).slice arpTpaAt 4 = b.slice arpSpaAt 4 := by
  have hspa : (b.slice arpSpaAt 4).length = 4 := Buf.length_slice b arpSpaAt 4
  rw [arpAnswer, Buf.slice_putAt_apart _ (.inr (by decide)),
    Buf.slice_putAt_apart _ (.inr (by decide)),
    Buf.slice_putAt_apart _ (.inr (by rw [length_put32]; decide)),
    Buf.slice_putAt_of_length hspa]

theorem slice_arpAnswer_tha {lladdr : List UInt8} (h : lladdr.length = 6) (itaddr : UInt32) :
    (arpAnswer b lladdr itaddr).slice arpThaAt 6 = b.slice arpShaAt 6 := by
  have hsha : (b.slice arpShaAt 6).length = 6 := Buf.length_slice b arpShaAt 6
  rw [arpAnswer, Buf.slice_putAt_apart _ (.inr (by decide)),
    Buf.slice_putAt_apart _ (.inr (by decide)),
    Buf.slice_putAt_apart _ (.inr (by rw [length_put32]; decide)),
    Buf.slice_putAt_apart _ (.inl (by decide)),
    Buf.slice_putAt_apart _ (.inr (by rw [h]; decide)), Buf.slice_putAt_of_length hsha]

/-- The fields of the answer. -/
theorem arpAnswer_take {lladdr : List UInt8} (h : lladdr.length = 6) (itaddr : UInt32) :
    (arpAnswer b lladdr itaddr).take 28 = arpSwapped b lladdr itaddr := by
  have hcut : (arpAnswer b lladdr itaddr).take 28 =
      (arpAnswer b lladdr itaddr).slice arHrdAt 2 ++ (arpAnswer b lladdr itaddr).slice arProAt 2 ++
        (arpAnswer b lladdr itaddr).slice arHlnAt 2 ++ (arpAnswer b lladdr itaddr).slice arOpAt 2 ++
        (arpAnswer b lladdr itaddr).slice arpShaAt 6 ++
        (arpAnswer b lladdr itaddr).slice arpSpaAt 4 ++
        (arpAnswer b lladdr itaddr).slice arpThaAt 6 ++
        (arpAnswer b lladdr itaddr).slice arpTpaAt 4 := by
    rw [← Buf.slice_zero_eq_take, show 28 = 2 + 2 + 2 + 2 + 6 + 4 + 6 + 4 from rfl]
    simp only [Buf.slice_add]
    rfl
  have hArHrd : (arpAnswer b lladdr itaddr).slice arHrdAt 2 = b.slice arHrdAt 2 := by
    rw [arpAnswer, Buf.slice_putAt_apart _ (.inl (by decide)),
      Buf.slice_putAt_apart _ (.inl (by decide)), Buf.slice_putAt_apart _ (.inl (by decide)),
      Buf.slice_putAt_apart _ (.inl (by decide)), Buf.slice_putAt_apart _ (.inl (by decide)),
      Buf.slice_putAt_apart _ (.inl (by decide))]
  have hArPro : (arpAnswer b lladdr itaddr).slice arProAt 2 = put16 ethertypeIp := by
    rw [arpAnswer, Buf.slice_putAt_of_length (length_put16 _)]
  have hArHln : (arpAnswer b lladdr itaddr).slice arHlnAt 2 = b.slice arHlnAt 2 := by
    rw [arpAnswer, Buf.slice_putAt_apart _ (.inr (by decide)),
      Buf.slice_putAt_apart _ (.inl (by decide)), Buf.slice_putAt_apart _ (.inl (by decide)),
      Buf.slice_putAt_apart _ (.inl (by decide)), Buf.slice_putAt_apart _ (.inl (by decide)),
      Buf.slice_putAt_apart _ (.inl (by decide))]
  have hArOp : (arpAnswer b lladdr itaddr).slice arOpAt 2 = put16 arpopReply := by
    rw [arpAnswer, Buf.slice_putAt_apart _ (.inr (by decide)),
      Buf.slice_putAt_of_length (length_put16 _)]
  rw [hcut, hArHrd, hArPro, hArHln, hArOp, slice_arpAnswer_sha h,
    slice_arpAnswer_spa, slice_arpAnswer_tha h, slice_arpAnswer_tpa, arpSwapped]

theorem arpAnswer_frame {lladdr : List UInt8} (h : lladdr.length = 6) (itaddr : UInt32) {k : Nat}
    (hk : 28 ≤ k) : arpAnswer b lladdr itaddr k = b k := by
  rw [arpAnswer, Buf.putAt_of_ge, Buf.putAt_of_ge, Buf.putAt_of_ge, Buf.putAt_of_ge,
    Buf.putAt_of_ge, Buf.putAt_of_ge]
  all_goals
    simp only [h, Buf.length_slice, length_put16, length_put32, arProAt, arOpAt, arpShaAt, arpSpaAt,
      arpThaAt, arpTpaAt]
    omega

theorem arpAnswerT_val {lladdr : List UInt8} (h : lladdr.length = 6) (itaddr : UInt32) :
    ((arpAnswerT lladdr itaddr).run b).val = some (b.slice arpShaAt 6) := by
  have hval : ((arpAnswerT lladdr itaddr).run b).val =
      some ((arpAnswer b lladdr itaddr).slice arpThaAt 6) := by
    rw [← arpAnswerT_buf h itaddr]
    rfl
  rw [hval, slice_arpAnswer_tha h]

theorem stays_arpAnswerT (hlen : 28 ≤ mLen) {lladdr : List UInt8} (h : lladdr.length = 6)
    (itaddr : UInt32) : Stays (Touch.below mLen) (arpAnswerT lladdr itaddr) b := by
  simp only [arpAnswerT, stays_bind, stays_rdSlice, stays_wrSlice, stays_pure, rdSlice_val,
    Touch.below_read, Touch.below_write, Buf.length_slice, h, length_put16, length_put32, arProAt,
    arOpAt, arpShaAt, arpSpaAt, arpThaAt, arpTpaAt, and_true]
  refine ⟨?_, ?_, ?_, ?_, ?_, ?_, ?_, ?_, ?_⟩
  all_goals
    intro i hi
    omega

theorem stays_arpLearnT (hlen : 28 ≤ mLen) (o : Option ArpSdl) :
    Stays (Touch.below mLen) (arpLearnT o) b := by
  cases o with
  | none => exact (stays_pure _).mpr trivial
  | some sdl =>
      have halen := sdl.alen_le
      have hcompare : Stays (Touch.below mLen) (arpCompareT sdl) b := by
        rw [arpCompareT]
        split
        · exact (stays_pure _).mpr trivial
        · simp only [stays_bind, stays_rdSlice, Touch.below_read, arpShaAt]
          refine ⟨fun i hi => by omega, ?_⟩
          split
          · exact (stays_pure _).mpr trivial
          · simp only [stays_bind, stays_rdSlice, Touch.below_read, stays_pure, and_true]
            intro i hi
            omega
      simp only [arpLearnT, stays_bind, stays_rdSlice, Touch.below_read, stays_pure, and_true,
        arpShaAt]
      exact ⟨hcompare, fun i hi => by omega⟩

theorem arpLearnT_buf (o : Option ArpSdl) : ((arpLearnT o).run b).buf = b := by
  cases o with
  | none => rfl
  | some sdl =>
      have hcompare : ((arpCompareT sdl).run b).buf = b := by
        rw [arpCompareT]
        split
        · rfl
        · rw [bind_buf]
          split
          · rfl
          · rfl
      rw [arpLearnT, bind_buf, hcompare]
      rfl

/-- Nothing is answered and the packet is as it was, or it is the answer. -/
def ArpOutcome (ac : Arpcom) (t : ArpSdls) (b : Buf) (o : Outcome (Option (List UInt8))) : Prop :=
  match o.val with
  | none => o.buf = b
  | some dst => ArpAnswers ac t b dst o.buf

theorem arpReplyT_outcome (henaddr : ac.enaddr.length = 6) {myaddr : UInt32}
    (hmine : arpMyaddrOf ac (b.u32 arpSpaAt) (b.u32 arpTpaAt) = some myaddr) :
    ArpOutcome ac t b ((arpReplyT ac t (b.u16 arOpAt) (arpItaddr b myaddr) myaddr).run b) := by
  have hanswer : ∀ lladdr : List UInt8, lladdr.length = 6 → b.u16 arOpAt = arpopRequest →
      (arpItaddr b myaddr = myaddr ∧ lladdr = ac.enaddr ∨
        arpItaddr b myaddr ≠ myaddr ∧
          ∃ sdl, t.proxies (arpItaddr b myaddr) = some sdl ∧ lladdr = sdl.lladdr) →
      ArpOutcome ac t b ((arpAnswerT lladdr (arpItaddr b myaddr)).run b) := by
    intro lladdr hlladdr hop hwhose
    rw [ArpOutcome, arpAnswerT_val hlladdr, arpAnswerT_buf hlladdr]
    exact ⟨hop, rfl, fun k hk => arpAnswer_frame hlladdr _ hk, myaddr, lladdr, hmine,
      arpAnswer_take hlladdr _, hwhose⟩
  unfold arpReplyT
  split
  · rfl
  · next hop =>
      have hop := not_ne_iff.mp hop
      split
      · next hmy => exact hanswer _ henaddr hop (.inl ⟨hmy, rfl⟩)
      · next hnot =>
          split
          · rfl
          · next sdl hsdl =>
              exact hanswer _ sdl.length_lladdr hop (.inr ⟨hnot, sdl, hsdl, rfl⟩)

theorem stays_arpReplyT (henaddr : ac.enaddr.length = 6) (hlen : 28 ≤ mLen) (op : UInt16)
    (itaddr myaddr : UInt32) :
    Stays (Touch.below mLen) (arpReplyT ac t op itaddr myaddr) b := by
  unfold arpReplyT
  split
  · exact (stays_pure _).mpr trivial
  · split
    · exact stays_arpAnswerT hlen henaddr itaddr
    · split
      · exact (stays_pure _).mpr trivial
      · next sdl _ => exact stays_arpAnswerT hlen sdl.length_lladdr itaddr

theorem arpOutcome_bind {α : Type} {p : Traced α} {f : α → Traced (Option (List UInt8))}
    (hkept : (p.run b).buf = b) :
    ArpOutcome ac t b ((p >>= f).run b) ↔ ArpOutcome ac t b ((f (p.run b).val).run b) := by
  rw [ArpOutcome, ArpOutcome, bind_val, bind_buf, hkept]

/-- The message that is in a packet. -/
def arpMessage (b : Buf) : ArpMessage :=
  ⟨b.u16 arOpAt, b.slice arpShaAt 6, b.u32 arpSpaAt, b.u32 arpTpaAt, Buf.length_slice b arpShaAt 6⟩

/-- Where the interface takes the answer, what is in the packet is the reply to the message. -/
theorem arpReplyT_arpReply (henaddr : ac.enaddr.length = 6) {table : ArpTable}
    (hproxies : ∀ a, (table.proxies a).map ArpEntry.lladdr = (t.proxies a).map ArpSdl.lladdr)
    {link : LinkAnswers} (hready : link.ready = true) (itaddr myaddr : UInt32) :
    arpReply ac table link (arpMessage b) itaddr myaddr =
      ((arpReplyT ac t (b.u16 arOpAt) itaddr myaddr).run b).val.toList.map fun tha =>
        let b' := ((arpReplyT ac t (b.u16 arOpAt) itaddr myaddr).run b).buf
        .reply (b'.slice arpShaAt 6) tha (b'.u32 arpSpaAt) (b'.u32 arpTpaAt) := by
  have hanswer : ∀ lladdr : List UInt8, lladdr.length = 6 →
      [ArpEffect.reply lladdr (b.slice arpShaAt 6) itaddr (b.u32 arpSpaAt)] =
        ((arpAnswerT lladdr itaddr).run b).val.toList.map fun tha =>
          let b' := ((arpAnswerT lladdr itaddr).run b).buf
          .reply (b'.slice arpShaAt 6) tha (b'.u32 arpSpaAt) (b'.u32 arpTpaAt) := by
    intro lladdr hlladdr
    have hspa := Buf.u32_of_slice (slice_arpAnswer_spa (b := b) lladdr itaddr)
    have htpa := slice_arpAnswer_tpa (b := b) lladdr itaddr
    rw [Buf.slice_four b] at htpa
    rw [arpAnswerT_val hlladdr, arpAnswerT_buf hlladdr, Option.toList_some, List.map_singleton]
    dsimp only
    rw [slice_arpAnswer_sha hlladdr, hspa, Buf.u32_of_slice htpa]
  have hproxy := hproxies itaddr
  unfold arpReply arpReplyT
  by_cases hop : b.u16 arOpAt = arpopRequest
  · have hop' : (arpMessage b).op = arpopRequest := hop
    rw [if_neg (not_ne_iff.mpr hop), if_neg (not_ne_iff.mpr hop')]
    simp only [hready, if_true]
    by_cases hmy : itaddr = myaddr
    · rw [if_pos hmy, if_pos hmy]
      exact hanswer _ henaddr
    · rw [if_neg hmy, if_neg hmy]
      cases hsdl : t.proxies itaddr with
      | none =>
          rw [hsdl, Option.map_none, Option.map_eq_none_iff] at hproxy
          rw [hproxy]
          rfl
      | some sdl =>
          rw [hsdl, Option.map_some, Option.map_eq_some_iff] at hproxy
          obtain ⟨la, hla, hlladdr⟩ := hproxy
          rw [hla]
          dsimp only
          rw [hlladdr]
          exact hanswer _ sdl.length_lladdr
  · have hop' : (arpMessage b).op ≠ arpopRequest := hop
    rw [if_pos hop, if_pos hop']
    rfl

theorem inArpinputT_outcome (henaddr : ac.enaddr.length = 6) :
    ArpOutcome ac t b ((inArpinputT ac t).run b) := by
  unfold inArpinputT
  rw [arpOutcome_bind (rd16_buf _), arpOutcome_bind (rd32_buf _), arpOutcome_bind (rd32_buf _)]
  split
  · rfl
  · next myaddr hmine =>
      have hreply := arpReplyT_outcome (t := t) henaddr (b := b) hmine
      rw [arpOutcome_bind (rdSlice_buf _ _)]
      split
      · rfl
      · rw [arpOutcome_bind (rdSlice_buf _ _)]
        split
        · rfl
        · split
          · next hdup =>
              have hdup : b.u32 arpSpaAt = myaddr := hdup
              rw [arpOutcome_bind (rdSlice_buf _ _)]
              rw [arpItaddr, if_pos hdup] at hreply
              exact hreply
          · next hdup =>
              have hdup : b.u32 arpSpaAt ≠ myaddr := hdup
              rw [arpOutcome_bind (arpLearnT_buf _)]
              rw [arpItaddr, if_neg hdup] at hreply
              exact hreply

theorem stays_inArpinputT (henaddr : ac.enaddr.length = 6) (hlen : 28 ≤ mLen) :
    Stays (Touch.below mLen) (inArpinputT ac t) b := by
  have hsha : ∀ i < 6, arpShaAt + i < mLen := by
    intro i hi
    rw [arpShaAt]
    omega
  unfold inArpinputT
  rw [stays_bind, stays_rd16, stays_bind, stays_rd32, stays_bind, stays_rd32]
  refine ⟨⟨?_, ?_⟩, fun i hi => ?_, fun i hi => ?_, ?_⟩
  · simp only [Touch.below_read, arOpAt]
    omega
  · simp only [Touch.below_read, arOpAt]
    omega
  · simp only [Touch.below_read, arpSpaAt]
    omega
  · simp only [Touch.below_read, arpTpaAt]
    omega
  split
  · exact (stays_pure _).mpr trivial
  · rw [stays_bind, stays_rdSlice]
    refine ⟨hsha, ?_⟩
    split
    · exact (stays_pure _).mpr trivial
    · rw [stays_bind, stays_rdSlice]
      refine ⟨hsha, ?_⟩
      split
      · exact (stays_pure _).mpr trivial
      · split
        · rw [stays_bind, stays_rdSlice]
          exact ⟨hsha, stays_arpReplyT henaddr hlen _ _ _⟩
        · rw [stays_bind]
          exact ⟨stays_arpLearnT hlen _, stays_arpReplyT henaddr hlen _ _ _⟩

/-- Of a packet of at least 28 octets nothing else is read or written. What comes of it is the
packet as it was, or the request with sender and target swapped: the sender is now the address that
was asked for, or ours if the other claims it, with our link-level address or that of a proxy
entry. -/
theorem arp_input_swaps (henaddr : ac.enaddr.length = 6) (hlen : 28 ≤ mLen) :
    Stays (Touch.below mLen) (arpintrT ac t mLen) b ∧
      ArpOutcome ac t b ((arpintrT ac t mLen).run b) := by
  rw [arpintrT]
  rw [if_neg (by omega)]
  constructor
  · simp only [stays_bind, stays_rd16, Touch.below_read, arHrdAt]
    refine ⟨by omega, ?_⟩
    split
    · exact (stays_pure _).mpr trivial
    · simp only [stays_bind, stays_rd8, Touch.below_read, arHlnAt, arPlnAt]
      refine ⟨by omega, by omega, ?_⟩
      split
      · exact (stays_pure _).mpr trivial
      · simp only [stays_bind, stays_rd16, Touch.below_read, arProAt]
        refine ⟨by omega, ?_⟩
        split
        · exact stays_inArpinputT henaddr hlen
        · exact (stays_pure _).mpr trivial
  · rw [arpOutcome_bind (rd16_buf _)]
    split
    · rfl
    · rw [arpOutcome_bind (rd8_buf _), arpOutcome_bind (rd8_buf _)]
      split
      · rfl
      · rw [arpOutcome_bind (rd16_buf _)]
        split
        · exact inArpinputT_outcome henaddr
        · rfl

end

/-- An interface with the address 10.0.0.1. -/
def arpHost : Arpcom :=
  ⟨0, [2, 0, 0, 0, 0, 1], false, false, [⟨0, 0x0a000001, 0x0a000000, 0xff000000⟩]⟩

def noSdls : ArpSdls := ⟨fun _ _ => none, fun _ => none⟩

/-- A request of 2:0:0:0:0:2 that says it has `spa`, for `tpa`. -/
def arpRequest (spa tpa : UInt32) : Buf :=
  Buf.of ([0, 1, 8, 0, 6, 4, 0, 1] ++ [2, 0, 0, 0, 0, 2] ++ put32 spa ++ List.replicate 6 0 ++
    put32 tpa)

theorem arp_input_swaps_own :
    Stays (Touch.below 28) (arpintrT arpHost noSdls 28) (arpRequest 0x0a000002 0x0a000001) ∧
      ArpOutcome arpHost noSdls (arpRequest 0x0a000002 0x0a000001)
        ((arpintrT arpHost noSdls 28).run (arpRequest 0x0a000002 0x0a000001)) :=
  arp_input_swaps (by decide) (by decide)

/-- With address lengths of 0 a packet of 8 octets is enough for `arpintr`. And to one that says it
has our address the answer is about this address, whatever it asked for. -/
theorem arp_input_not_swapped :
    ¬ Stays (Touch.below 8) (arpintrT arpHost noSdls 8) (Buf.of [0, 1, 8, 0, 0, 0, 0, 1]) ∧
      ((arpintrT arpHost noSdls 28).run (arpRequest 0x0a000001 0x0a000009)).val =
        some [2, 0, 0, 0, 0, 2] ∧
      ((arpintrT arpHost noSdls 28).run (arpRequest 0x0a000001 0x0a000009)).buf.slice arpSpaAt 4 ≠
        (arpRequest 0x0a000001 0x0a000009).slice arpTpaAt 4 := by
  refine ⟨fun hcon => ?_, by decide +kernel, by decide +kernel⟩
  exact absurd (hcon (.read 14) (by decide +kernel)) (by decide)

end VxWorks.Netinet
