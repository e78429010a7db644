import Mathlib.Tactic.Common
import VxWorks.Ppp.AckExact
import VxWorks.Ppp.NetworkPhase

/-!
# The Naks and Rejects of a request (`lcp.c`, `ipcp.c`)

A Configure-Reject gives back some of the options of the request it answers, in their order
and as they were sent. `rejci` goes along the options that it would send now: each has to be
the next thing in the packet, octet for octet, or not be there at all, and in the end
nothing may be left over. As no two of the options that we send have the same type, that
finds the options that were rejected, and they are not asked for again.

A bad Nak or Reject, or one for a protocol that is `OPENED`, is forgotten. The exception is
the address of IPCP. Without it the link is of no use, and `ipcp_rejci` takes the link down
as soon as it sees the option.
-/

namespace VxWorks.Ppp

open VxWorks.Lib

/-! ## Options in a row -/

/-- An option in the row of those that are sent: which one it is, and its octets. -/
def sentCi {φ : Type} (neg : Bool) (name : φ) (octets : List UInt8) : List (φ × List UInt8) :=
  if neg then [(name, octets)] else []

/-- What a row of options is in a packet. -/
def ciOctets {φ : Type} (cis : List (φ × List UInt8)) : List UInt8 := cis.flatMap Prod.snd

/-- A string does not start with this type. -/
def Apart (opt : UInt8) (p : List UInt8) : Prop := ∀ b ∈ p.head?, b ≠ opt

section

variable {φ : Type} {neg : Bool} {name : φ} {octets : List UInt8} {opt : UInt8}

@[simp] theorem ciOctets_append (cis cis' : List (φ × List UInt8)) :
    ciOctets (cis ++ cis') = ciOctets cis ++ ciOctets cis' := List.flatMap_append

theorem ciOctets_sentCi : ciOctets (sentCi neg name octets) = if neg then octets else [] := by
  cases neg with
  | false => rfl
  | true => exact List.append_nil _

theorem mem_sentCi {ci : φ × List UInt8} :
    ci ∈ sentCi neg name octets ↔ neg = true ∧ ci = (name, octets) := by
  cases neg <;> simp [sentCi]

/-- Of one option there is either the option or nothing. -/
theorem sublist_sentCi {cis : List (φ × List UInt8)} :
    cis.Sublist (sentCi neg name octets) ↔
      ∃ b, (b = true → neg = true) ∧ cis = sentCi b name octets := by
  cases neg with
  | false =>
      constructor
      · intro h
        exact ⟨false, nofun, List.sublist_nil.mp h⟩
      · rintro ⟨b, hb, rfl⟩
        cases b with
        | false => exact List.nil_sublist _
        | true => exact absurd (hb rfl) (by decide)
  | true =>
      constructor
      · intro h
        rcases List.sublist_singleton.mp h with rfl | rfl
        · exact ⟨false, nofun, rfl⟩
        · exact ⟨true, fun _ => rfl, rfl⟩
      · rintro ⟨b, -, rfl⟩
        cases b with
        | false => exact List.nil_sublist _
        | true => exact List.Sublist.refl _

theorem apart_ciOctets {cis : List (φ × List UInt8)}
    (h : ∀ ci ∈ cis, ∃ t, ci.2.head? = some t ∧ t ≠ opt) : Apart opt (ciOctets cis) := by
  cases cis with
  | nil => exact nofun
  | cons ci cis =>
      obtain ⟨t, hhead, hne⟩ := h ci List.mem_cons_self
      have hfirst : (ciOctets (ci :: cis)).head? = some t := by
        rw [ciOctets, List.flatMap_cons, List.head?_append, hhead]
        rfl
      intro b hb
      rw [hfirst] at hb
      obtain rfl := Option.mem_some_iff.mp hb
      exact hne

end

section

variable {α : Type} {neg b : Bool} {opt cilen : UInt8} {body : Codec α} {val : α}
  {p q : List UInt8}

theorem get_of_apart (h : Apart opt p) : (Codec.tagged opt cilen body).get p = none := by
  match p with
  | [] | [_] => rfl
  | t :: l :: p => exact if_neg fun hhead => h t rfl hhead.2

/-- One step of `rejci`: the option is next, as it was sent, or an option of its shape is
not next. -/
theorem rejci_eq_some_iff [DecidableEq α] {ci : Codec α} :
    rejci neg ci val p = some (b, q) ↔
      p = addci b ci val ++ q ∧ (b = true → neg = true) ∧
        (b = false → neg = true → ci.get p = none) := by
  unfold rejci nakci
  cases neg with
  | false =>
      cases b with
      | false => simp [addci]
      | true => simp
  | true =>
      cases hget : ci.get p with
      | none =>
          cases b with
          | false => simp [addci]
          | true =>
              simp only [if_true, Option.some.injEq, Prod.mk.injEq, Bool.false_eq_true, false_and,
                false_iff]
              rintro ⟨rfl, -⟩
              simp [addci, ci.get_put] at hget
      | some r =>
          obtain ⟨v, rest⟩ := r
          cases b with
          | false => simp
          | true =>
              simp only [if_true, forall_const, Bool.true_eq_false, false_implies, and_true]
              constructor
              · intro h
                split_ifs at h with hv
                obtain rfl : rest = q := congrArg Prod.snd (Option.some.inj h)
                rw [ci.put_get hget, hv]
                rfl
              · rintro rfl
                have hval : (val, q) = (v, rest) :=
                  Option.some.inj ((ci.get_put val q).symm.trans hget)
                obtain ⟨rfl, rfl⟩ := Prod.mk.inj hval
                exact if_pos rfl

end

/-- An option of ours, as a Reject is read: it is the next one in the packet, or it is not
there. -/
structure Slot (φ : Type) where
  name : φ
  opt : UInt8
  neg : Bool
  octets : List UInt8
  reject : List UInt8 → Option (Bool × List UInt8)
  head : octets.head? = some opt
  of_reject : ∀ {p b q}, reject p = some (b, q) →
    p = (if b then octets else []) ++ q ∧ (b = true → neg = true)
  reject_next : ∀ {b q}, (b = true → neg = true) → (neg = true → Apart opt q) →
    reject ((if b then octets else []) ++ q) = some (b, q)

def Slot.sent {φ : Type} (s : Slot φ) : List (φ × List UInt8) := sentCi s.neg s.name s.octets

/-- A `REJCIxxx` macro. -/
def ciSlot {φ α : Type} [DecidableEq α] (name : φ) (neg : Bool) (opt cilen : UInt8)
    (body : Codec α) (val : α) : Slot φ where
  name := name
  opt := opt
  neg := neg
  octets := (Codec.tagged opt cilen body).put val
  reject := rejci neg (.tagged opt cilen body) val
  head := rfl
  of_reject h := ⟨(rejci_eq_some_iff.mp h).1, (rejci_eq_some_iff.mp h).2.1⟩
  reject_next hb hq := by
    refine rejci_eq_some_iff.mpr ⟨rfl, hb, ?_⟩
    rintro rfl hneg
    exact get_of_apart (hq hneg)

/-- One macro behind the other: the options that were there, and what is left. -/
def rejRow {φ : Type} : List (Slot φ) → List UInt8 → Option (List φ × List UInt8)
  | [], p => some ([], p)
  | s :: row, p =>
      (s.reject p).bind fun r =>
        (rejRow row r.2).map fun t => ((if r.1 then [s.name] else []) ++ t.1, t.2)

/-- As long as no two of the options have one type, a row of them reads exactly the strings
that are made of some of the options, in their order. -/
theorem rejRow_iff {φ : Type} {row : List (Slot φ)}
    (hrow : row.Pairwise fun s t => s.neg = true → t.neg = true → t.opt ≠ s.opt)
    {p : List UInt8} {names : List φ} :
    rejRow row p = some (names, []) ↔
      ∃ rejected : List (φ × List UInt8), rejected.Sublist (row.flatMap Slot.sent) ∧
        p = ciOctets rejected ∧ names = rejected.map Prod.fst := by
  induction row generalizing p names with
  | nil =>
      constructor
      · intro h
        obtain ⟨rfl, rfl⟩ : [] = names ∧ p = [] := by simpa [rejRow] using h
        exact ⟨[], List.Sublist.refl _, rfl, rfl⟩
      · rintro ⟨rejected, hsub, rfl, rfl⟩
        obtain rfl := List.sublist_nil.mp hsub
        rfl
  | cons s row ih =>
      obtain ⟨hopt, hrow⟩ := List.pairwise_cons.mp hrow
      rw [List.flatMap_cons]
      constructor
      · intro h
        simp only [rejRow, Option.bind_eq_some_iff, Option.map_eq_some_iff, Prod.exists] at h
        obtain ⟨there, q, hfirst, names', rest, hrest, h⟩ := h
        obtain ⟨rfl, rfl⟩ := Prod.mk.inj h
        obtain ⟨rfl, hneg⟩ := s.of_reject hfirst
        obtain ⟨rejected, hsub, rfl, rfl⟩ := (ih hrow).mp hrest
        refine ⟨sentCi there s.name s.octets ++ rejected, ?_, ?_, ?_⟩
        · exact (sublist_sentCi.mpr ⟨there, hneg, rfl⟩).append hsub
        · rw [ciOctets_append, ciOctets_sentCi]
        · cases there <;> rfl
      · rintro ⟨_, hsub, rfl, rfl⟩
        obtain ⟨_, rejected, rfl, hfirst, hbehind⟩ := List.sublist_append_iff.mp hsub
        obtain ⟨there, hneg, rfl⟩ := sublist_sentCi.mp hfirst
        -- what comes behind the option has another type
        have hapart (hs : s.neg = true) : Apart s.opt (ciOctets rejected) := by
          refine apart_ciOctets ?_
          intro ci hci
          obtain ⟨t, ht, hsent⟩ := List.mem_flatMap.mp (hbehind.subset hci)
          obtain ⟨hneg, rfl⟩ := mem_sentCi.mp hsent
          exact ⟨t.opt, t.head, hopt t ht hs hneg⟩
        rw [ciOctets_append, ciOctets_sentCi, rejRow, s.reject_next hneg hapart]
        simp only [Option.bind_some, (ih hrow).mpr ⟨rejected, hbehind, rfl, rfl⟩]
        cases there <;> rfl

theorem bind_eq_map_bind {α β γ : Type} {x : Option α} {f : α → Option γ} {g : α → Option β}
    {k : β → γ} (h : ∀ r, f r = (g r).map k) : x.bind f = (x.bind g).map k := by
  cases x with
  | none => rfl
  | some r => exact h r

/-- The end of `rejci`: if there are any remaining options, then this packet is bad. -/
def rejEnd {ω α : Type} (opened : Bool) (o : ω) (put : α → ω) :
    Option (α × List UInt8) → Bool × ω
  | some (try', []) => (true, if opened then o else put try')
  | _ => (false, o)

/-- What a callback for Rejects has to do, given the options that were sent: it finds the
Reject good if and only if it is made of some of the options, in their order, and then it
clears their flags. A bad Reject changes nothing, and neither does one in `OPENED`. -/
structure RejectSpec {φ ω : Type} (sent : List (φ × List UInt8)) (clear : List φ → ω)
    (opened : Bool) (o : ω) (p : List UInt8) (r : Bool × ω) : Prop where
  good_iff : r.1 = true ↔
    ∃ rejected : List (φ × List UInt8), rejected.Sublist sent ∧ p = ciOctets rejected
  cleared : ∀ rejected : List (φ × List UInt8), rejected.Sublist sent → p = ciOctets rejected →
    opened = false → r.2 = clear (rejected.map Prod.fst)
  unchanged : r.1 = false ∨ opened = true → r.2 = o

theorem rejEnd_spec {φ ω α : Type} {row : List (Slot φ)}
    (hrow : row.Pairwise fun s t => s.neg = true → t.neg = true → t.opt ≠ s.opt)
    (opened : Bool) (o : ω) (put : α → ω) (clear : List φ → α) (p : List UInt8) :
    RejectSpec (row.flatMap Slot.sent) (fun names => put (clear names)) opened o p
      (rejEnd opened o put ((rejRow row p).map fun t => (clear t.1, t.2))) := by
  have hread (rejected : List (φ × List UInt8))
      (hsub : rejected.Sublist (row.flatMap Slot.sent)) (hp : p = ciOctets rejected) :
      rejRow row p = some (rejected.map Prod.fst, []) :=
    (rejRow_iff hrow).mpr ⟨rejected, hsub, hp, rfl⟩
  rcases hr : rejRow row p with _ | ⟨names, _ | ⟨b, rest⟩⟩
  · refine ⟨iff_of_false nofun ?_, ?_, fun _ => rfl⟩
    · rintro ⟨rejected, hsub, hp⟩
      rw [hread rejected hsub hp] at hr
      cases hr
    · intro rejected hsub hp
      rw [hread rejected hsub hp] at hr
      cases hr
  · obtain ⟨rejected, hsub, hp, rfl⟩ := (rejRow_iff hrow).mp hr
    refine ⟨iff_of_true rfl ⟨rejected, hsub, hp⟩, ?_, ?_⟩
    · intro rejected' hsub' hp' hopened
      rw [hread rejected' hsub' hp'] at hr
      obtain ⟨hnames, -⟩ := Prod.mk.inj (Option.some.inj hr)
      rw [hnames]
      exact if_neg (by simp [hopened])
    · rintro (hbad | hopened)
      · exact absurd hbad nofun
      · exact if_pos hopened
  · refine ⟨iff_of_false nofun ?_, ?_, fun _ => rfl⟩
    · rintro ⟨rejected, hsub, hp⟩
      rw [hread rejected hsub hp] at hr
      cases hr
    · intro rejected hsub hp
      rw [hread rejected hsub hp] at hr
      cases hr

/-! ## LCP -/

/-- The options of LCP. -/
inductive LcpCi where
  | mru | asyncmap | chap | upap | quality | magicnumber | pcompression | accompression
deriving DecidableEq, Repr

/-- The options that `gotoptions` stands for, in the order of `lcp_addci`. -/
def lcpSent (go : LcpOptions) : List (LcpCi × List UInt8) :=
  sentCi go.negMru LcpCi.mru ((ciShort ciMru).put go.mru) ++
  sentCi go.negAsyncmap LcpCi.asyncmap ((ciLong ciAsyncmap).put go.asyncmap) ++
  sentCi go.negChap LcpCi.chap ((ciChap ciAuthtype).put (chapProto, go.chapMdtype)) ++
  sentCi (!go.negChap && go.negUpap) LcpCi.upap ((ciShort ciAuthtype).put upapProto) ++
  sentCi go.negLqr LcpCi.quality ((ciLqr ciQuality).put (lqrProto, go.lqrPeriod)) ++
  sentCi go.negMagicnumber LcpCi.magicnumber ((ciLong ciMagicnumber).put go.magicnumber) ++
  sentCi go.negPcompression LcpCi.pcompression ((ciVoid ciPcompression).put ()) ++
  sentCi go.negAccompression LcpCi.accompression ((ciVoid ciAccompression).put ())

/-- The `neg` flags of these options cleared. -/
def lcpCleared (go : LcpOptions) (cis : List LcpCi) : LcpOptions :=
  { go with
    negMru := go.negMru && decide (.mru ∉ cis)
    negAsyncmap := go.negAsyncmap && decide (.asyncmap ∉ cis)
    negChap := go.negChap && decide (.chap ∉ cis)
    negUpap := go.negUpap && decide (.upap ∉ cis)
    negLqr := go.negLqr && decide (.quality ∉ cis)
    negMagicnumber := go.negMagicnumber && decide (.magicnumber ∉ cis)
    negPcompression := go.negPcompression && decide (.pcompression ∉ cis)
    negAccompression := go.negAccompression && decide (.accompression ∉ cis) }

theorem ciOctets_lcpSent (go : LcpOptions) : ciOctets (lcpSent go) = lcpAddci go := by
  simp only [lcpSent, lcpAddci, ciOctets_append, ciOctets_sentCi]
  rfl

/-- The macros of `lcp_rejci`. -/
def lcpRow (go : LcpOptions) : List (Slot LcpCi) :=
  [ciSlot .mru go.negMru ciMru cilenShort .short go.mru,
    ciSlot .asyncmap go.negAsyncmap ciAsyncmap cilenLong .long go.asyncmap,
    ciSlot .chap go.negChap ciAuthtype cilenChap (.pair .short .octet) (chapProto, go.chapMdtype),
    ciSlot .upap (!go.negChap && go.negUpap) ciAuthtype cilenShort .short upapProto,
    ciSlot .quality go.negLqr ciQuality cilenLqr (.pair .short .long) (lqrProto, go.lqrPeriod),
    ciSlot .magicnumber go.negMagicnumber ciMagicnumber cilenLong .long go.magicnumber,
    ciSlot .pcompression go.negPcompression ciPcompression cilenVoid .void (),
    ciSlot .accompression go.negAccompression ciAccompression cilenVoid .void ()]

theorem lcpRow_sent (go : LcpOptions) : (lcpRow go).flatMap Slot.sent = lcpSent go := by
  simp only [lcpRow, lcpSent, List.flatMap_cons, List.flatMap_nil, List.append_assoc,
    List.append_nil]
  rfl

/-- The only type that two of the options have is that of the authentication protocols, and
of these one is sent. -/
theorem lcpRow_apart (go : LcpOptions) :
    (lcpRow go).Pairwise fun s t => s.neg = true → t.neg = true → t.opt ≠ s.opt := by
  cases hchap : go.negChap <;>
    simp [lcpRow, ciSlot, hchap, ciMru, ciAsyncmap, ciAuthtype, ciQuality, ciMagicnumber,
      ciPcompression, ciAccompression]

/-- What `lcp_rejci` would ask for next time, and what is left behind the macros. -/
def lcpRejTry (go : LcpOptions) (p : List UInt8) : Option (LcpOptions × List UInt8) := do
  let (mru, p) ← rejci go.negMru (ciShort ciMru) go.mru p
  let (asyncmap, p) ← rejci go.negAsyncmap (ciLong ciAsyncmap) go.asyncmap p
  let (chap, p) ← rejci go.negChap (ciChap ciAuthtype) (chapProto, go.chapMdtype) p
  let (upap, p) ← rejci (!go.negChap && go.negUpap) (ciShort ciAuthtype) upapProto p
  let (lqr, p) ← rejci go.negLqr (ciLqr ciQuality) (lqrProto, go.lqrPeriod) p
  let (magicnumber, p) ← rejci go.negMagicnumber (ciLong ciMagicnumber) go.magicnumber p
  let (pcompression, p) ← rejci go.negPcompression (ciVoid ciPcompression) () p
  let (accompression, p) ← rejci go.negAccompression (ciVoid ciAccompression) () p
  some ({ go with
    negMru := go.negMru && !mru
    negAsyncmap := go.negAsyncmap && !asyncmap
    negChap := go.negChap && !chap
    negUpap := go.negUpap && !upap
    negLqr := go.negLqr && !lqr
    negMagicnumber := go.negMagicnumber && !magicnumber
    negPcompression := go.negPcompression && !pcompression
    negAccompression := go.negAccompression && !accompression }, p)

theorem lcpRejTry_eq (go : LcpOptions) (p : List UInt8) :
    lcpRejTry go p = (rejRow (lcpRow go) p).map fun t => (lcpCleared go t.1, t.2) := by
  rw [lcpRejTry]
  iterate 8
    refine bind_eq_map_bind ?_
    intro r
    rw [Option.map_map]
  refine congrArg some (Prod.ext ?_ rfl)
  simp [lcpCleared, ciSlot]

theorem lcpRejci_tried (opened : Bool) (o : Lcp) (p : List UInt8) :
    lcpRejci opened o p =
      match lcpRejTry o.got p with
      | some (try', []) => (true, if opened then o else { o with got := try' })
      | _ => (false, o) := rfl

/-- `lcp_rejci` reads the row. -/
theorem lcpRejci_eq (opened : Bool) (o : Lcp) (p : List UInt8) :
    lcpRejci opened o p = rejEnd opened o (fun go => { o with got := go })
      ((rejRow (lcpRow o.got) p).map fun t => (lcpCleared o.got t.1, t.2)) := by
  rw [← lcpRejTry_eq, lcpRejci_tried]
  rcases lcpRejTry o.got p with _ | ⟨_, _ | _⟩ <;> rfl

theorem lcpRejci_spec (opened : Bool) (o : Lcp) (p : List UInt8) :
    RejectSpec (lcpSent o.got) (fun names => { o with got := lcpCleared o.got names }) opened o p
      (lcpRejci opened o p) := by
  rw [lcpRejci_eq, ← lcpRow_sent]
  exact rejEnd_spec (lcpRow_apart o.got) opened o (fun go => { o with got := go })
    (lcpCleared o.got) p

/-- A bad Nak, or one in `OPENED`, may have drawn a magic number and done nothing else. -/
theorem lcpNakci_unchanged {magic : Nat → UInt32} {opened good : Bool} {o : Lcp}
    {p : List UInt8} (h : (lcpNakci magic opened o p).1 = some good)
    (hkept : good = false ∨ opened = true) :
    ∃ n, (lcpNakci magic opened o p).2 = { o with drawn := n } := by
  obtain ⟨n, try', r, hr⟩ := lcpNakci_outcome magic opened o p
  rw [hr] at h ⊢
  refine ⟨n, ?_⟩
  match r, h with
  | some false, _ => rfl
  | some true, h =>
      obtain rfl : true = good := Option.some.inj h
      exact if_pos (hkept.resolve_left nofun)

/-! ## IPCP -/

/-- The options of IPCP. -/
inductive IpcpCi where
  | addr | vj
deriving DecidableEq, Repr

def ipcpSent (go : IpcpOptions) : List (IpcpCi × List UInt8) :=
  sentCi go.negAddr IpcpCi.addr (addrOctets go) ++ sentCi go.negVj IpcpCi.vj (vjOctets go)

def ipcpCleared (go : IpcpOptions) (cis : List IpcpCi) : IpcpOptions :=
  { go with
    negAddr := go.negAddr && decide (.addr ∉ cis)
    negVj := go.negVj && decide (.vj ∉ cis) }

theorem ciOctets_ipcpSent (go : IpcpOptions) : ciOctets (ipcpSent go) = ownOctets go := by
  simp only [ipcpSent, ownOctets, ciOctets_append, ciOctets_sentCi]

/-- The macros of `ipcp_rejci`. -/
def ipcpRow (go : IpcpOptions) : List (Slot IpcpCi) :=
  [if go.oldAddrs then
      ciSlot .addr go.negAddr ciAddrs cilenAddrs (.pair .long .long) (go.ouraddr, go.hisaddr)
    else ciSlot .addr go.negAddr ciAddr cilenAddr .long go.ouraddr,
    if go.oldVj then ciSlot .vj go.negVj ciCompresstype cilenCompress .short go.vjProtocol
    else
      ciSlot .vj go.negVj ciCompresstype cilenVj (.pair .short (.pair .octet .octet))
        (go.vjProtocol, go.maxslotindex, go.cflag)]

theorem ipcpRow_sent (go : IpcpOptions) : (ipcpRow go).flatMap Slot.sent = ipcpSent go := by
  rw [ipcpRow, ipcpSent, addrOctets, vjOctets]
  cases go.oldAddrs <;> cases go.oldVj <;> exact congrArg _ (List.append_nil _)

theorem ipcpRow_apart (go : IpcpOptions) :
    (ipcpRow go).Pairwise fun s t => s.neg = true → t.neg = true → t.opt ≠ s.opt := by
  rw [ipcpRow]
  cases go.oldAddrs <;> cases go.oldVj <;> simp [ciSlot, ciAddrs, ciAddr, ciCompresstype]

/-- What `ipcp_rejci` would ask for next time, and what is left behind the macros. -/
def ipcpRejTry (go : IpcpOptions) (p : List UInt8) : Option (IpcpOptions × List UInt8) := do
  let (two, p) ←
    rejci (go.negAddr && go.oldAddrs) (ciTwoAddrs ciAddrs) (go.ouraddr, go.hisaddr) p
  let (one, p) ← rejci (go.negAddr && !go.oldAddrs) (ciOneAddr ciAddr) go.ouraddr p
  let (old, p) ← rejci (go.negVj && go.oldVj) ciOldVj go.vjProtocol p
  let (new, p) ←
    rejci (go.negVj && !go.oldVj) ciVj (go.vjProtocol, go.maxslotindex, go.cflag) p
  some ({ go with
    negAddr := go.negAddr && !(two || one)
    negVj := go.negVj && !(old || new) }, p)

theorem ipcpRejTry_eq (go : IpcpOptions) (p : List UInt8) :
    ipcpRejTry go p = (rejRow (ipcpRow go) p).map fun t => (ipcpCleared go t.1, t.2) := by
  have hnone {α : Type} [DecidableEq α] (ci : Codec α) (val : α) (p : List UInt8) :
      rejci false ci val p = some (false, p) := rfl
  rw [ipcpRejTry, ipcpRow]
  cases haddrs : go.oldAddrs <;> cases hvj : go.oldVj
  all_goals
    simp only [Bool.and_false, Bool.and_true, Bool.not_true, Bool.not_false, hnone,
      Option.bind_eq_bind, Option.bind_some, if_true, if_false, Bool.false_eq_true]
    iterate 2
      refine bind_eq_map_bind ?_
      intro r
      rw [Option.map_map]
    refine congrArg some (Prod.ext ?_ rfl)
    simp [ipcpCleared, ciSlot, haddrs, hvj]

theorem ipcpRejci_tried (opened : Bool) (o : Ipcp) (p : List UInt8) :
    ipcpRejci opened o p =
      match ipcpRejTry o.got p with
      | some (try', []) => (true, if opened then o else { o with got := try' })
      | _ => (false, o) := rfl

theorem ipcpRejci_spec (opened : Bool) (o : Ipcp) (p : List UInt8) :
    RejectSpec (ipcpSent o.got) (fun names => { o with got := ipcpCleared o.got names }) opened o p
      (ipcpRejci opened o p) := by
  have hrej : ipcpRejci opened o p =
      rejEnd opened o (fun go => { o with got := go }) (ipcpRejTry o.got p) := by
    rw [ipcpRejci_tried]
    rcases ipcpRejTry o.got p with _ | ⟨_, _ | _⟩ <;> rfl
  rw [hrej, ipcpRejTry_eq, ← ipcpRow_sent]
  exact rejEnd_spec (ipcpRow_apart o.got) opened o (fun go => { o with got := go })
    (ipcpCleared o.got) p

/-- The address is rejected if it is among the options. -/
theorem ipcpRejAddr_of_sublist {go : IpcpOptions} {rejected : List (IpcpCi × List UInt8)}
    (h : rejected.Sublist (ipcpSent go)) :
    ipcpRejAddr go (ciOctets rejected) = decide (.addr ∈ rejected.map Prod.fst) := by
  obtain ⟨_, _, rfl, haddr, hvj⟩ := List.sublist_append_iff.mp h
  obtain ⟨b, hb, rfl⟩ := sublist_sentCi.mp haddr
  obtain ⟨c, -, rfl⟩ := sublist_sentCi.mp hvj
  have hnames : decide (IpcpCi.addr ∈ (sentCi b IpcpCi.addr (addrOctets go) ++
      sentCi c IpcpCi.vj (vjOctets go)).map Prod.fst) = b := by
    cases b <;> cases c <;> rfl
  rw [hnames, ciOctets_append, ciOctets_sentCi, ciOctets_sentCi]
  cases b with
  | true =>
      have hread {α : Type} (ci : Codec α) (v : α) (q : List UInt8) :
          nakci true ci (ci.put v ++ q) = (some v, q) := by
        simp [nakci, ci.get_put]
      rw [ipcpRejAddr, addrOctets]
      rw [hb rfl]
      cases go.oldAddrs with
      | true => simp [hread]
      | false => simp [hread]
  | false =>
      -- the other option is of another type
      have hapart {opt : UInt8} (hopt : ciCompresstype ≠ opt) :
          Apart opt (if c then vjOctets go else []) := by
        intro t ht
        cases c with
        | false => cases ht
        | true =>
            rw [vjOctets] at ht
            cases hold : go.oldVj <;> simp [hold, ciVj, ciOldVj, Codec.tagged] at ht <;>
              exact ht ▸ hopt
      have hnone {α : Type} {neg : Bool} {opt cilen : UInt8} {body : Codec α}
          (hopt : ciCompresstype ≠ opt) : (nakci neg (.tagged opt cilen body)
            (if c then vjOctets go else [])).1 = none := by
        rw [nakci, get_of_apart (hapart hopt)]
        cases neg <;> rfl
      rw [if_neg Bool.false_ne_true, List.nil_append, ipcpRejAddr, ciTwoAddrs, ciOneAddr,
        hnone (by decide), hnone (by decide)]
      rfl

theorem ipcpNakci_unchanged {opened : Bool} {o : Ipcp} {p : List UInt8}
    (h : (ipcpNakci opened o p).1 = false ∨ opened = true) : (ipcpNakci opened o p).2 = o := by
  have hcases : ∃ r, ipcpNakci opened o p = match r with
      | none => (false, o)
      | some (k : IpcpNak) => (true, if opened then o else { o with got := k.try' }) := ⟨_, rfl⟩
  obtain ⟨r, hr⟩ := hcases
  rw [hr] at h ⊢
  cases r with
  | none => rfl
  | some k => exact if_pos (h.resolve_left nofun)

/-- All the options that fit are in the request, and `gotoptions` has no others. -/
theorem ciOctets_ipcpSconfreq (peerMru : Int) (o : Ipcp) :
    ciOctets (ipcpSent (ipcpSconfreq peerMru o).1.got) = (ipcpSconfreq peerMru o).2 := by
  have hlen := length_ipcpAddci_le o (min (ipcpCilen o.got) (peerMru - headerlen))
  rw [ciOctets_ipcpSent, ipcpSconfreq]
  dsimp only
  rw [List.take_of_length_le (by omega)]
  rfl

/-- Requests of the peer's that leave us our address leave us our options. -/
theorem ipcpSent_after {o : Ipcp} {reqs : List (List UInt8 × Bool)}
    (h : o.got.negAddr = true → ∀ addr, ipcpTakenOver o.want o.allow reqs = some addr →
      addr = o.got.ouraddr) :
    ipcpSent (ipcpAfter o reqs).got = ipcpSent o.got := by
  rw [ipcpAfter_got]
  cases hneg : o.got.negAddr with
  | true => rw [getD_eq_iff.mpr (h hneg)]
  | false =>
      unfold ipcpSent
      rw [hneg]
      rfl

/-! ## In a session -/

namespace Stack

variable {σ : Type} (a : Stack σ)

/-- The other two callbacks, besides `lcpNaked` and `ipcpRejected`. -/
def lcpRejected (s : Session σ) (p : List UInt8) : Bool × Session σ :=
  let r := lcpRejci (s.lcp.state = .opened) s.link p
  (r.1, { s with link := r.2 })

def ipcpNaked (s : Session σ) (p : List UInt8) : Bool × Session σ :=
  let r := ipcpNakci (s.ipcp.state = .opened) s.net p
  (r.1, { s with net := r.2 })

theorem callbacks_nak_rej :
    a.lcpCallbacks.nakci = some a.lcpNaked ∧ a.lcpCallbacks.rejci = some lcpRejected ∧
      a.ipcpCallbacks.nakci = some ipcpNaked ∧ a.ipcpCallbacks.rejci = some a.ipcpRejected :=
  ⟨rfl, rfl, rfl, rfl⟩

theorem lcpDown_net (s : Session σ) : (a.lcpDown s).net = s.net := by
  obtain ⟨f, -, he⟩ := a.ipcpLowerdown_eq (lcpEchoLowerdown s)
  obtain ⟨c, n, hc⟩ :=
    (a.chap_keeps _).lowerDown (OnChap.refl (a.ipcpLowerdown (lcpEchoLowerdown s)))
  rw [lcpDown]
  rw [hc, he]
  rfl

/-- LCP does not touch the options of IPCP. -/
theorem lcp_ignores_net (n : Ipcp) :
    a.lcpPort.Ignores a.lcpLower fun s : Session σ => s.net = n where
  put _ _ h := h
  timeout h := h
  client h := h
  sconfreq _ _ h := h
  sent _ _ h := h
  resetci h := h
  addci _ hc h := by
    obtain rfl := Option.some.inj hc
    exact h
  set _ h := h
  untimeout h := h
  down h := (a.lcpDown_net _).trans h
  starting h := h

theorem die_net (s : Session σ) : (a.die s).net = s.net := by
  have hclose : (a.lcpClose s).net = s.net := by
    unfold lcpClose lcpFinished
    split
    · split
      · exact (a.lcp_ignores_net s.net).fsmOpen rfl
      · rfl
    · exact (a.lcp_ignores_net s.net).fsmClose rfl
  unfold die
  dsimp only
  split
  · exact hclose
  · exact hclose

theorem lcpRejected_spec (s : Session σ) (p : List UInt8) :
    RejectSpec (lcpSent s.link.got)
      (fun names => { s with link := { s.link with got := lcpCleared s.link.got names } })
      (s.lcp.state = .opened) s p (lcpRejected s p) := by
  have h := lcpRejci_spec (s.lcp.state = .opened) s.link p
  refine ⟨h.good_iff, ?_, ?_⟩
  · intro rejected hsub hp hopened
    exact congrArg (fun l => { s with link := l }) (h.cleared rejected hsub hp hopened)
  · intro hkept
    exact congrArg (fun l => { s with link := l }) (h.unchanged hkept)

/-- A Reject that the address is not in. -/
theorem ipcpRejected_spec (s : Session σ) (p : List UInt8)
    (haddr : ipcpRejAddr s.net.got p = false) :
    RejectSpec (ipcpSent s.net.got)
      (fun names => { s with net := { s.net with got := ipcpCleared s.net.got names } })
      (s.ipcp.state = .opened) s p (a.ipcpRejected s p) := by
  have h := ipcpRejci_spec (s.ipcp.state = .opened) s.net p
  have hrej : a.ipcpRejected s p = ((ipcpRejci (s.ipcp.state = .opened) s.net p).1,
      { s with net := (ipcpRejci (s.ipcp.state = .opened) s.net p).2 }) := by
    simp only [ipcpRejected, haddr, Bool.false_eq_true, if_false]
  rw [hrej]
  refine ⟨h.good_iff, ?_, ?_⟩
  · intro rejected hsub hp hopened
    exact congrArg (fun n => { s with net := n }) (h.cleared rejected hsub hp hopened)
  · intro hkept
    exact congrArg (fun n => { s with net := n }) (h.unchanged hkept)

/-- Whether a Reject is good has nothing to do with the link. -/
theorem ipcpRejected_good_iff (s : Session σ) (p : List UInt8) :
    (a.ipcpRejected s p).1 = true ↔
      ∃ rejected : List (IpcpCi × List UInt8), rejected.Sublist (ipcpSent s.net.got) ∧
        p = ciOctets rejected := by
  by_cases haddr : ipcpRejAddr s.net.got p = true
  · have h := ipcpRejci_spec ((a.die s).ipcp.state = .opened) (a.die s).net p
    rw [a.die_net] at h
    simp only [ipcpRejected, haddr, if_true, a.die_net]
    exact h.good_iff
  · exact (a.ipcpRejected_spec s p (by simpa using haddr)).good_iff

/-- The address is among the options that are rejected. -/
theorem ipcpRejected_addr (s : Session σ) {rejected : List (IpcpCi × List UInt8)}
    (hsub : rejected.Sublist (ipcpSent s.net.got)) (haddr : .addr ∈ rejected.map Prod.fst) :
    (a.ipcpRejected s (ciOctets rejected)).2 =
      { a.die s with net :=
        if (a.die s).ipcp.state = .opened then s.net
        else { s.net with got := ipcpCleared s.net.got (rejected.map Prod.fst) } } := by
  have h := ipcpRejci_spec ((a.die s).ipcp.state = .opened) (a.die s).net (ciOctets rejected)
  rw [a.die_net] at h
  have hrej : ipcpRejAddr s.net.got (ciOctets rejected) = true := by
    rw [ipcpRejAddr_of_sublist hsub]
    exact decide_eq_true haddr
  simp only [ipcpRejected, hrej, if_true, a.die_net]
  refine congrArg (fun n => { a.die s with net := n }) ?_
  split
  · next hopened => exact h.unchanged (.inr (decide_eq_true hopened))
  · next hopened => exact h.cleared rejected hsub rfl (decide_eq_false hopened)

end Stack

/-! ## Both -/

/-- After a request was sent, and whatever requests of the peer's were answered since, a
Reject is good if and only if it is made of some of the options that were sent, and it
clears the flags of these. If our address is one of them, the link is taken down first.
Otherwise, and for all other Naks and Rejects that do not start with an option that looks
like our address, nothing changes if they are bad or if the protocol is `OPENED`. -/
theorem replies_exact {σ : Type} (a : Stack σ) (s : Session σ) (p : List UInt8) :
    (∀ (o : Lcp) (reqs : List (List UInt8 × Bool)), s.link = lcpAfter a.magic o reqs →
      (lcpCilen o.got ≤ max 0 (o.peerMru - headerlen) →
        ciOctets (lcpSent o.got) = lcpSconfreq o) ∧
      RejectSpec (lcpSent o.got)
        (fun names => { s with link := { s.link with got := lcpCleared s.link.got names } })
        (s.lcp.state = .opened) s p (Stack.lcpRejected s p)) ∧
    (∀ good, (lcpNakci a.magic (s.lcp.state = .opened) s.link p).1 = some good →
      good = false ∨ s.lcp.state = .opened →
        ∃ n, a.lcpNaked s p = (good, { s with link := { s.link with drawn := n } })) ∧
    (∀ (peerMru : Int) (o : Ipcp) (reqs : List (List UInt8 × Bool)),
      let asked := (ipcpSconfreq peerMru o).1
      s.net = ipcpAfter asked reqs →
      (asked.got.negAddr = true → ∀ addr,
        ipcpTakenOver asked.want asked.allow reqs = some addr → addr = asked.got.ouraddr) →
      ciOctets (ipcpSent asked.got) = (ipcpSconfreq peerMru o).2 ∧
      ((a.ipcpRejected s p).1 = true ↔
        ∃ rejected : List (IpcpCi × List UInt8), rejected.Sublist (ipcpSent asked.got) ∧
          p = ciOctets rejected) ∧
      (∀ rejected : List (IpcpCi × List UInt8), rejected.Sublist (ipcpSent asked.got) →
        p = ciOctets rejected → .addr ∈ rejected.map Prod.fst →
          (a.ipcpRejected s p).2 = { a.die s with net :=
            if (a.die s).ipcp.state = .opened then s.net
            else { s.net with got := ipcpCleared s.net.got (rejected.map Prod.fst) } }) ∧
      (ipcpRejAddr s.net.got p = false →
        RejectSpec (ipcpSent asked.got)
          (fun names => { s with net := { s.net with got := ipcpCleared s.net.got names } })
          (s.ipcp.state = .opened) s p (a.ipcpRejected s p))) ∧
    ((Stack.ipcpNaked s p).1 = false ∨ s.ipcp.state = .opened → (Stack.ipcpNaked s p).2 = s) := by
  refine ⟨fun o reqs hlink => ⟨?_, ?_⟩, ?_, ?_, ?_⟩
  · intro hroom
    rw [ciOctets_lcpSent]
    exact (lcpSconfreq_eq_iff o).mpr hroom
  · have hgot : o.got = s.link.got := by rw [hlink, lcpAfter_got]
    rw [hgot]
    exact Stack.lcpRejected_spec s p
  · intro good hgood hkept
    obtain ⟨n, hn⟩ := lcpNakci_unchanged hgood (hkept.imp_right decide_eq_true)
    refine ⟨n, ?_⟩
    simp only [Stack.lcpNaked, hgood, hn]
  · intro peerMru o reqs asked hnet hsame
    have hsent : ipcpSent asked.got = ipcpSent s.net.got := by rw [hnet, ipcpSent_after hsame]
    refine ⟨ciOctets_ipcpSconfreq peerMru o, ?_, ?_, ?_⟩
    · rw [hsent]
      exact a.ipcpRejected_good_iff s p
    · rintro rejected hsub rfl haddr
      exact a.ipcpRejected_addr s (hsent ▸ hsub) haddr
    · intro haddr
      rw [hsent]
      exact a.ipcpRejected_spec s p haddr
  · intro hkept
    exact congrArg (fun n => { s with net := n })
      (ipcpNakci_unchanged (hkept.imp_right decide_eq_true))

/-! A link without authentication comes up, and IPCP asks for an address and for header
compression. -/

def openSession : Session Unit :=
  { papSession with
    link := { papSession.link with want := LcpOptions.zero }
    net := ipcpInit
    authRequired := false }

def openUp : List SessionEvent :=
  [.lowerup, .open, .packet lcpProto [1, 7, 0, 4], .packet lcpProto [2, 1, 0, 4]]

/-- The peer has no header compression. -/
theorem replies_exact_vj :
    let s := run papStack.step openSession openUp
    s.ipcp.state = .reqsent ∧
      papStack.ipcpRejected s [2, 6, 0, 45, 15, 1] =
        (true, { s with net := { s.net with got := ipcpCleared s.net.got [.vj] } }) := by
  intro s
  obtain ⟨-, -, hipcp, -⟩ := replies_exact papStack s [2, 6, 0, 45, 15, 1]
  have hspec := (hipcp mtu (ipcpResetci ipcpInit) [] (by decide +kernel) nofun).2.2.2
    (by decide +kernel)
  have hgood := hspec.good_iff.mpr ⟨[(.vj, [2, 6, 0, 45, 15, 1])], by decide +kernel, rfl⟩
  have hcleared := hspec.cleared [(.vj, [2, 6, 0, 45, 15, 1])] (by decide +kernel) rfl
    (by decide +kernel)
  exact ⟨by decide +kernel, Prod.ext hgood hcleared⟩

/-- The peer rejects the address, which is 0.0.0.0. The Reject is good, but more changes
than the flag: the link is closed. -/
theorem address_reject_closes :
    let s := run papStack.step openSession openUp
    ¬ RejectSpec (ipcpSent s.net.got)
      (fun names => { s with net := { s.net with got := ipcpCleared s.net.got names } })
      (s.ipcp.state = .opened) s [3, 6, 0, 0, 0, 0]
      (papStack.ipcpRejected s [3, 6, 0, 0, 0, 0]) := by
  intro s h
  have hcleared := h.cleared [(.addr, [3, 6, 0, 0, 0, 0])] (by decide +kernel) rfl
    (by decide +kernel)
  have hstate := congrArg (fun t => t.lcp.state) hcleared
  revert hstate
  decide +kernel

end VxWorks.Ppp
