import Mathlib.Tactic.Common
import VxWorks.Lib.Buffer
import VxWorks.Ppp.ReqOptions

/-!
# The reply is made in the packet (`lcp.c`, `ipcp.c`)

`lcp_reqci` and `ipcp_reqci` are handed the octets of a Configure-Request and leave the
reply in the same buffer. What is rejected is moved to its front while the rest is still
to be read, a Nak of the MRU or of the asyncmap is written into the option it is about,
and `ipcp_reqci` makes all its Naks that way. Here the loops are as the source has them,
with the buffer and the pointers into it.

That they do what `lcpReqci` and `ipcpReqci` say, which see the request as a list and the
reply as another one, rests on the pointer for writing never getting ahead of the one for
reading: what is behind the reading pointer is still the request, and what is before the
writing pointer is the reply so far.
-/

namespace VxWorks.Ppp

open VxWorks.Lib

/-- `PPP_MRU`, the size of `nak_buffer`. -/
def pppMru : Nat := 1500

/-- Where the options start in the packet buffer, and what is left of it from there:
`MTU + DLLHEADERLEN` octets less the two headers. -/
def inpRoom : Nat := 1500 + 4 - (4 + 4)

/-- A reply: its code, the buffer from `inp` on, and the length. -/
structure Reply where
  rc : ConfCode
  inp : Buf
  len : Nat

def Reply.data (a : Reply) : List UInt8 := a.inp.take a.len

/-- The options in the `len` octets at `inp`. -/
def cisAt (inp : Buf) (len : Nat) : List ReqCi := reqCis len (inp.take len)

/-! ## `lcp_reqci` -/

/-- The variables of the loop; `r` has the Nak under construction, at `nakp` in the
`nak_buffer`, and its `rej` is not used. -/
structure LcpReqVars where
  inp : Buf
  next : Nat
  l : Nat
  rejp : Nat
  r : LcpReq

/-- The hint of a Nak that is written over the option. -/
def lcpHintInPlace (ao : LcpOptions) (rejectIfDisagree : Bool) (orc : ConfCode) (citype : UInt8)
    (body : List UInt8) : List UInt8 :=
  if orc = .nak ∧ !rejectIfDisagree then
    if citype = ciMru then put16 minmru
    else if citype = ciAsyncmap then put32 (ao.asyncmap ||| longAt body)
    else []
  else []

/-- Behind the label `endswitch`. -/
def lcpEndswitch (rejectIfDisagree : Bool) (citype : UInt8) (cip cilen : Nat) (orc : ConfCode)
    (s : LcpReqVars) : LcpReqVars :=
  let reject : LcpReqVars :=
    { s with inp := s.inp.move cip s.rejp cilen, rejp := s.rejp + cilen,
             r := { s.r with rc := .rej } }
  match orc with
  | .ack => s
  | .nak =>
      if rejectIfDisagree ∧ citype ≠ ciMagicnumber then reject
      else if s.r.rc = .rej then s
      else { s with r := { s.r with rc := .nak } }
  | .rej => reject

/-- One round. `cilen` is a `u_char`, also when it is the length of all that is left. -/
def lcpReqTurn (magic : Nat → UInt32) (go ao : LcpOptions) (rejectIfDisagree : Bool)
    (s : LcpReqVars) : LcpReqVars :=
  let cip := s.next
  if s.l < 2 ∨ s.inp (cip + 1) < 2 ∨ s.l < (s.inp (cip + 1)).toNat then
    lcpEndswitch rejectIfDisagree 0 cip (s.l % 256) .rej { s with l := 0 }
  else
    let citype := s.inp cip
    let cilen := s.inp (cip + 1)
    let body := s.inp.slice (cip + 2) (cilen.toNat - 2)
    let v := lcpReqOpt magic go ao s.r citype cilen body
    lcpEndswitch rejectIfDisagree citype cip cilen.toNat v.1
      { inp := s.inp.putAt (cip + 2) (lcpHintInPlace ao rejectIfDisagree v.1 citype body)
        next := s.next + cilen.toNat
        l := s.l - cilen.toNat
        rejp := s.rejp
        r := v.2 }

/-- The loop, with a bound on its rounds: each takes two octets or more. -/
def lcpReqLoop (magic : Nat → UInt32) (go ao : LcpOptions) (rejectIfDisagree : Bool) :
    Nat → LcpReqVars → LcpReqVars
  | 0, s => s
  | rounds + 1, s =>
      if s.l = 0 then s
      else lcpReqLoop magic go ao rejectIfDisagree rounds
        (lcpReqTurn magic go ao rejectIfDisagree s)

/-- The variables when the loop is entered. -/
def lcpReqStart (o : Lcp) (inp : Buf) (len : Nat) : LcpReqVars where
  inp := inp
  next := 0
  l := len
  rejp := 0
  r := { his := LcpOptions.zero, nak := [], rej := [], rc := .ack, drawn := o.drawn }

/-- `lcp_reqci` on the `len` octets at `inp`. -/
def lcpReqciAt (magic : Nat → UInt32) (o : Lcp) (inp : Buf) (len : Nat)
    (rejectIfDisagree : Bool) : Reply × LcpReqVars × Lcp :=
  let s := lcpReqLoop magic o.got o.allow rejectIfDisagree len (lcpReqStart o inp len)
  (match s.r.rc with
    | .ack => ⟨.ack, s.inp, s.next⟩
    | .nak => ⟨.nak, s.inp.putAt 0 s.r.nak, s.r.nak.length⟩
    | .rej => ⟨.rej, s.inp, s.rejp⟩, s,
    { o with his := s.r.his, drawn := s.r.drawn })

/-! ## `ipcp_reqci` -/

structure IpcpReqVars where
  inp : Buf
  next : Nat
  l : Nat
  ucp : Nat
  rc : ConfCode
  go : IpcpOptions
  ho : IpcpOptions

/-- Behind the label `endswitch`. -/
def ipcpEndswitch (rejectIfDisagree : Bool) (cip cilen : Nat) (orc : ConfCode)
    (s : IpcpReqVars) : IpcpReqVars :=
  let move (s : IpcpReqVars) : IpcpReqVars :=
    { s with inp := s.inp.move cip s.ucp cilen, ucp := s.ucp + cilen }
  match (if orc = .nak ∧ rejectIfDisagree then ConfCode.rej else orc), s.rc with
  | .ack, .ack => move s
  -- a prior one wasn't good: don't send this one
  | .ack, _ => s
  | .nak, .rej => s
  | .nak, .nak => move s
  | .nak, .ack => move { s with rc := .nak, ucp := 0 }
  | .rej, .rej => move s
  | .rej, _ => move { s with rc := .rej, ucp := 0 }

/-- One round. The hints are written over the option. -/
def ipcpReqTurn (wo ao : IpcpOptions) (rejectIfDisagree : Bool) (s : IpcpReqVars) :
    IpcpReqVars :=
  let cip := s.next
  if s.l < 2 ∨ s.inp (cip + 1) < 2 ∨ s.l < (s.inp (cip + 1)).toNat then
    ipcpEndswitch rejectIfDisagree cip s.l .rej { s with l := 0 }
  else
    let citype := s.inp cip
    let cilen := s.inp (cip + 1)
    let body := s.inp.slice (cip + 2) (cilen.toNat - 2)
    let v := ipcpReqOpt wo ao rejectIfDisagree ⟨s.go, s.ho, [], s.rc⟩ citype cilen body
    ipcpEndswitch rejectIfDisagree cip cilen.toNat v.1
      { inp := s.inp.putAt (cip + 2) v.2.1
        next := s.next + cilen.toNat
        l := s.l - cilen.toNat
        ucp := s.ucp
        rc := s.rc
        go := v.2.2.go
        ho := v.2.2.ho }

def ipcpReqLoop (wo ao : IpcpOptions) (rejectIfDisagree : Bool) :
    Nat → IpcpReqVars → IpcpReqVars
  | 0, s => s
  | rounds + 1, s =>
      if s.l = 0 then s
      else ipcpReqLoop wo ao rejectIfDisagree rounds (ipcpReqTurn wo ao rejectIfDisagree s)

/-- The variables when the loop is entered. -/
def ipcpReqStart (o : Ipcp) (inp : Buf) (len : Nat) : IpcpReqVars where
  inp := inp
  next := 0
  l := len
  ucp := 0
  rc := .ack
  go := o.got
  ho := IpcpOptions.zero

/-- `ipcp_reqci` on the `len` octets at `inp`. -/
def ipcpReqciAt (o : Ipcp) (inp : Buf) (len : Nat) (rejectIfDisagree : Bool) : Reply × Ipcp :=
  let wo := o.want
  let s := ipcpReqLoop wo o.allow rejectIfDisagree len (ipcpReqStart o inp len)
  let o := { o with got := s.go, his := s.ho }
  if s.rc ≠ .rej ∧ !s.ho.negAddr ∧ wo.reqAddr ∧ !rejectIfDisagree then
    let ask := (ciOneAddr ciAddr).put wo.hisaddr
    if s.rc = .ack then
      (⟨.nak, s.inp.putAt 0 ask, ask.length⟩, { o with want := { wo with reqAddr := false } })
    else (⟨s.rc, s.inp.putAt s.ucp ask, s.ucp + ask.length⟩, o)
  else (⟨s.rc, s.inp, s.ucp⟩, o)

/-! ## The options in the buffer -/

/-- A length the loops do not accept. -/
def badCi (inp : Buf) (next l : Nat) : Prop :=
  l < 2 ∨ inp (next + 1) < 2 ∨ l < (inp (next + 1)).toNat

theorem badCi_cases (inp : Buf) (next l : Nat) :
    badCi inp next l ∨ ¬ badCi inp next l ∧ 2 ≤ (inp (next + 1)).toNat ∧
      (inp (next + 1)).toNat ≤ l := by
  by_cases h : badCi inp next l
  · exact .inl h
  · refine .inr ⟨h, ?_⟩
    rw [badCi] at h
    rw [UInt8.lt_iff_toNat_lt] at h
    simp only [UInt8.reduceToNat] at h
    omega

theorem reqCis_slice_bad {inp : Buf} {next l n : Nat} (hl : l ≠ 0) (hbad : badCi inp next l) :
    reqCis (n + 1) (inp.slice next l) = [.tail (inp.slice next l)] := by
  match l with
  | 0 => exact absurd rfl hl
  | 1 => simp [Buf.slice, reqCis]
  | l + 2 =>
      have hshort : ¬ l + 2 < 2 := by omega
      rw [Buf.slice_succ, Buf.slice_succ, reqCis, Buf.length_slice, if_pos]
      exact hbad.resolve_left hshort

/-- The option at the front of what is left, and what is left behind it. -/
theorem reqCis_slice_good {inp : Buf} {next l n : Nat} (hgood : ¬ badCi inp next l)
    (h2 : 2 ≤ (inp (next + 1)).toNat) (hle : (inp (next + 1)).toNat ≤ l) :
    reqCis (n + 1) (inp.slice next l) =
      .opt (inp next) (inp (next + 1)) (inp.slice (next + 2) ((inp (next + 1)).toNat - 2)) ::
        reqCis n (inp.slice (next + (inp (next + 1)).toNat) (l - (inp (next + 1)).toNat)) := by
  obtain ⟨l, rfl⟩ : ∃ k, l = k + 2 := ⟨l - 2, by omega⟩
  have hsplit : inp.slice (next + 1 + 1) l =
      inp.slice (next + 2) ((inp (next + 1)).toNat - 2) ++
        inp.slice (next + (inp (next + 1)).toNat) (l + 2 - (inp (next + 1)).toNat) := by
    have hl : l = ((inp (next + 1)).toNat - 2) + (l + 2 - (inp (next + 1)).toNat) := by omega
    conv_lhs => rw [hl, Buf.slice_add]
    congr 2
    omega
  have hfits : ¬ (inp (next + 1) < 2 ∨ l + 2 < (inp (next + 1)).toNat) :=
    fun h => hgood (.inr h)
  rw [Buf.slice_succ, Buf.slice_succ, reqCis, Buf.length_slice, if_neg hfits, hsplit]
  congr 1
  · rw [List.take_left' (Buf.length_slice ..)]
  · rw [List.drop_left' (Buf.length_slice ..)]

/-! ## `lcp_reqci` on the list and in the buffer -/

/-- The reply under construction, with the rejects read off the buffer. -/
def LcpReqVars.abs (s : LcpReqVars) : LcpReq := { s.r with rej := s.inp.slice 0 s.rejp }

/-- What a round leaves: the reply of the list, the unread octets, and, as long as all is
acknowledged, everything. -/
structure LcpReqVars.Turned (s s' : LcpReqVars) (r' : LcpReq) : Prop where
  abs : s'.abs = r'
  behind : s'.rejp ≤ s'.next ∨ s'.l = 0
  unread : ∀ i, s'.next ≤ i → s'.l ≠ 0 → s'.inp i = s.inp i
  ack : s'.r.rc = .ack → s.r.rc = .ack ∧ s'.inp = s.inp ∧ s'.next + s'.l = s.next + s.l

section

variable {magic : Nat → UInt32} {go ao : LcpOptions} {reject : Bool}

theorem lcpReqTurn_of_bad {s : LcpReqVars} (hbad : badCi s.inp s.next s.l) :
    lcpReqTurn magic go ao reject s =
      lcpEndswitch reject 0 s.next (s.l % 256) .rej { s with l := 0 } := if_pos hbad

theorem lcpReqTurn_tail {s : LcpReqVars} (hbad : badCi s.inp s.next s.l) :
    s.Turned (lcpReqTurn magic go ao reject s)
      (lcpReqRound magic go ao reject s.abs (.tail (s.inp.slice s.next s.l))) := by
  rw [lcpReqTurn_of_bad hbad]
  refine ⟨?_, .inr rfl, fun i _ h0 => absurd rfl h0, fun hrc => by cases hrc⟩
  simp only [LcpReqVars.abs, lcpEndswitch, lcpReqRound, lcpReqDispose, Buf.slice_move,
    Buf.length_slice, Buf.take_slice _ _ (Nat.mod_le _ _)]

/-- A hint is written only where nothing is rejected. -/
theorem lcpHint_eq_nil {orc : ConfCode} {citype : UInt8} {body : List UInt8}
    (h : orc ≠ .nak ∨ reject = true) : lcpHintInPlace ao reject orc citype body = [] := by
  rw [lcpHintInPlace]
  rw [if_neg]
  rintro ⟨hnak, hreject⟩
  rcases h with h | h
  · exact h hnak
  · simp [h] at hreject

/-- The hint is as long as the value it replaces. -/
theorem lcpHint_length_le {r : LcpReq} {citype cilen : UInt8} {body : List UInt8} :
    let v := lcpReqOpt magic go ao r citype cilen body
    (lcpHintInPlace ao reject v.1 citype body).length ≤ cilen.toNat - 2 := by
  intro v
  rw [lcpHintInPlace]
  split_ifs with hnak hmru hasync
  · have hlen : cilen = cilenShort := by
      by_contra hne
      simp [v, lcpReqOpt, hmru, hne] at hnak
    simp [hlen, cilenShort]
  · have hlen : cilen = cilenLong := by
      by_contra hne
      simp [v, lcpReqOpt, hasync, hne, ciAsyncmap, ciMru] at hnak
    simp [hlen, cilenLong]
  · simp
  · simp

theorem lcpEndswitch_next (citype : UInt8) (cip cilen : Nat) (orc : ConfCode) (s : LcpReqVars) :
    (lcpEndswitch reject citype cip cilen orc s).next = s.next := by
  unfold lcpEndswitch
  repeat' first | rfl | split

theorem lcpEndswitch_l (citype : UInt8) (cip cilen : Nat) (orc : ConfCode) (s : LcpReqVars) :
    (lcpEndswitch reject citype cip cilen orc s).l = s.l := by
  unfold lcpEndswitch
  repeat' first | rfl | split

/-- Behind the `switch`, for an option of `n` octets that got verdict `c`. -/
theorem lcpEndswitch_turned {s : LcpReqVars} {citype : UInt8} {n : Nat} {c : ConfCode}
    {r : LcpReq} {hint : List UInt8} (h2 : 2 ≤ n) (hle : n ≤ s.l) (hbehind : s.rejp ≤ s.next)
    (hrc : r.rc = s.r.rc) (hlen : hint.length ≤ n - 2)
    (hnil : c ≠ .nak ∨ reject = true → hint = []) :
    s.Turned
      (lcpEndswitch reject citype s.next n c
        ⟨s.inp.putAt (s.next + 2) hint, s.next + n, s.l - n, s.rejp, r⟩)
      (lcpReqDispose reject citype (s.inp.slice s.next n)
        (c, { r with rej := s.inp.slice 0 s.rejp })) := by
  -- an option that is rejected carries no hint
  have hrej : hint = [] → s.Turned
      { inp := (s.inp.putAt (s.next + 2) hint).move s.next s.rejp n
        next := s.next + n, l := s.l - n, rejp := s.rejp + n, r := { r with rc := .rej } }
      { r with rc := .rej, rej := s.inp.slice 0 s.rejp ++ s.inp.slice s.next n } := by
    intro h
    rw [h, Buf.putAt_nil]
    refine ⟨?_, .inl (by simpa using hbehind), fun i hi _ => ?_, fun hack => by cases hack⟩
    · simp only [LcpReqVars.abs, Buf.slice_move]
    · exact Buf.move_of_ge (Nat.le_trans (Nat.add_le_add_right hbehind n) hi)
  -- one that is kept leaves the rejects where they are
  have hkeep : ∀ rc, (rc = .ack → r.rc = .ack ∧ hint = []) → s.Turned
      { inp := s.inp.putAt (s.next + 2) hint
        next := s.next + n, l := s.l - n, rejp := s.rejp, r := { r with rc := rc } }
      { r with rc := rc, rej := s.inp.slice 0 s.rejp } := by
    intro rc hack
    refine ⟨?_, .inl (Nat.le_add_right_of_le hbehind), ?_, ?_⟩
    · simp only [LcpReqVars.abs]
      rw [Buf.slice_putAt_apart _ (.inl (by omega))]
    · intro i hi _
      have hend : s.next + 2 + hint.length ≤ s.next + n := by omega
      exact Buf.putAt_of_ge _ (hend.trans hi)
    · intro h
      obtain ⟨hr, h⟩ := hack h
      refine ⟨hrc ▸ hr, ?_, ?_⟩
      · simp only [h, Buf.putAt_nil]
      · simp only
        omega
  unfold lcpEndswitch lcpReqDispose
  cases c with
  | ack => exact hkeep r.rc fun h => ⟨h, hnil (.inl (by decide))⟩
  | rej => exact hrej (hnil (.inl (by decide)))
  | nak =>
      simp only
      by_cases htough : reject = true ∧ citype ≠ ciMagicnumber
      · rw [if_pos htough, if_pos htough]
        exact hrej (hnil (.inr htough.1))
      · rw [if_neg htough, if_neg htough]
        by_cases hrej' : r.rc = .rej
        · rw [if_pos hrej', if_pos hrej']
          exact hkeep r.rc fun h => absurd (hrej'.symm.trans h) (by decide)
        · rw [if_neg hrej', if_neg hrej']
          exact hkeep .nak fun h => by cases h

theorem lcpReqTurn_of_good {s : LcpReqVars} (hgood : ¬ badCi s.inp s.next s.l) :
    lcpReqTurn magic go ao reject s =
      let citype := s.inp s.next
      let cilen := s.inp (s.next + 1)
      let body := s.inp.slice (s.next + 2) (cilen.toNat - 2)
      let v := lcpReqOpt magic go ao s.r citype cilen body
      lcpEndswitch reject citype s.next cilen.toNat v.1
        ⟨s.inp.putAt (s.next + 2) (lcpHintInPlace ao reject v.1 citype body),
          s.next + cilen.toNat, s.l - cilen.toNat, s.rejp, v.2⟩ := if_neg hgood

theorem lcpReqTurn_opt {s : LcpReqVars} (hgood : ¬ badCi s.inp s.next s.l)
    (h2 : 2 ≤ (s.inp (s.next + 1)).toNat) (hle : (s.inp (s.next + 1)).toNat ≤ s.l)
    (hbehind : s.rejp ≤ s.next) :
    s.Turned (lcpReqTurn magic go ao reject s)
      (lcpReqRound magic go ao reject s.abs (.opt (s.inp s.next) (s.inp (s.next + 1))
        (s.inp.slice (s.next + 2) ((s.inp (s.next + 1)).toNat - 2)))) := by
  rw [lcpReqTurn_of_good hgood, lcpReqRound]
  dsimp only
  generalize hcl : s.inp (s.next + 1) = cilen at *
  generalize hct : s.inp s.next = citype
  generalize hbody : s.inp.slice (s.next + 2) (cilen.toNat - 2) = body
  -- the option as it stands in the buffer
  have hcip : s.inp.slice s.next cilen.toNat = citype :: cilen :: body := by
    obtain ⟨n, hn⟩ : ∃ n, cilen.toNat = n + 2 := ⟨cilen.toNat - 2, by omega⟩
    rw [hn, Buf.slice_succ, Buf.slice_succ, hct, hcl, ← hbody, hn]
    rfl
  have habs : lcpReqOpt magic go ao s.abs citype cilen body =
      ((lcpReqOpt magic go ao s.r citype cilen body).1,
        { (lcpReqOpt magic go ao s.r citype cilen body).2 with
          rej := s.inp.slice 0 s.rejp }) := by
    rw [lcpReqOpt_frame, lcpReqOpt_frame magic go ao s.r]
    rfl
  rw [habs, ← hcip]
  refine lcpEndswitch_turned h2 hle hbehind ?_ lcpHint_length_le lcpHint_eq_nil
  rw [lcpReqOpt_frame]

/-- The whole loop. -/
theorem lcpReqLoop_eq (rounds : Nat) {s : LcpReqVars} (hrounds : s.l ≤ rounds)
    (hbehind : s.rejp ≤ s.next ∨ s.l = 0) :
    (lcpReqLoop magic go ao reject rounds s).abs =
        (reqCis rounds (s.inp.slice s.next s.l)).foldl (lcpReqRound magic go ao reject) s.abs ∧
      ((lcpReqLoop magic go ao reject rounds s).r.rc = .ack → s.r.rc = .ack ∧
        (lcpReqLoop magic go ao reject rounds s).inp = s.inp ∧
        (lcpReqLoop magic go ao reject rounds s).next = s.next + s.l) := by
  induction rounds generalizing s with
  | zero =>
      obtain h0 : s.l = 0 := Nat.le_zero.mp hrounds
      simp [lcpReqLoop, reqCis, h0]
  | succ rounds ih =>
      rw [lcpReqLoop]
      by_cases h0 : s.l = 0
      · rw [if_pos h0, h0]
        simp [Buf.slice, reqCis]
      · rw [if_neg h0]
        -- one round, and what is left to the others
        obtain ⟨ci, hturned, hlt, hcis⟩ : ∃ ci,
            s.Turned (lcpReqTurn magic go ao reject s) (lcpReqRound magic go ao reject s.abs ci) ∧
            (lcpReqTurn magic go ao reject s).l < s.l ∧
            reqCis (rounds + 1) (s.inp.slice s.next s.l) = ci :: reqCis rounds
              ((lcpReqTurn magic go ao reject s).inp.slice (lcpReqTurn magic go ao reject s).next
                (lcpReqTurn magic go ao reject s).l) := by
          rcases badCi_cases s.inp s.next s.l with hbad | ⟨hgood, h2, hle⟩
          · refine ⟨_, lcpReqTurn_tail hbad, ?_, ?_⟩
            · rw [lcpReqTurn_of_bad hbad, lcpEndswitch_l]
              exact Nat.pos_of_ne_zero h0
            · rw [reqCis_slice_bad h0 hbad, lcpReqTurn_of_bad hbad, lcpEndswitch_l]
              cases rounds <;> rfl
          · have hturned := @lcpReqTurn_opt magic go ao reject s hgood h2 hle
              (hbehind.resolve_right h0)
            have hnext : (lcpReqTurn magic go ao reject s).next =
                s.next + (s.inp (s.next + 1)).toNat := by
              rw [lcpReqTurn_of_good hgood, lcpEndswitch_next]
            have hl : (lcpReqTurn magic go ao reject s).l =
                s.l - (s.inp (s.next + 1)).toNat := by
              rw [lcpReqTurn_of_good hgood, lcpEndswitch_l]
            refine ⟨_, hturned, by omega, ?_⟩
            rw [reqCis_slice_good hgood h2 hle, ← hnext, ← hl]
            congr 2
            exact Buf.slice_congr fun i hi hlt => (hturned.unread i hi (by omega)).symm
        obtain ⟨habs, hack⟩ := ih (by omega) hturned.behind
        refine ⟨?_, ?_⟩
        · rw [habs, hturned.abs, hcis, List.foldl_cons]
        · intro h
          obtain ⟨hrc, hinp, hend⟩ := hack h
          obtain ⟨hrc', hinp', hend'⟩ := hturned.ack hrc
          exact ⟨hrc', hinp.trans hinp', hend.trans hend'⟩

/-- `lcp_reqci` in the buffer is `lcp_reqci` on the list of its octets. -/
theorem lcpReqciAt_eq (magic : Nat → UInt32) (o : Lcp) (inp : Buf) (len : Nat) (reject : Bool) :
    ((lcpReqciAt magic o inp len reject).1.rc, (lcpReqciAt magic o inp len reject).1.data,
        (lcpReqciAt magic o inp len reject).2.2) =
      lcpReqci magic o (inp.take len) reject := by
  obtain ⟨habs, hack⟩ := @lcpReqLoop_eq magic o.got o.allow reject len (lcpReqStart o inp len)
    (Nat.le_refl _) (.inl (Nat.le_refl _))
  unfold lcpReqciAt lcpReqci
  rw [Buf.length_take, ← Buf.slice_zero_eq_take]
  have hlist : (reqCis len (inp.slice 0 len)).foldl
      (lcpReqRound magic o.got o.allow reject)
        { his := LcpOptions.zero, nak := [], rej := [], rc := .ack, drawn := o.drawn } = _ :=
    habs.symm
  dsimp only
  rw [hlist]
  generalize lcpReqLoop magic o.got o.allow reject len (lcpReqStart o inp len) = s at hack ⊢
  simp only [LcpReqVars.abs]
  cases hrc : s.r.rc with
  | ack =>
      obtain ⟨-, hinp, hnext⟩ := hack hrc
      simp only [Reply.data, hinp, hnext, lcpReqStart, Nat.zero_add, Buf.slice_zero_eq_take]
  | nak =>
      simp only [Reply.data]
      rw [← Buf.slice_zero_eq_take, Buf.slice_putAt_same]
  | rej => simp only [Reply.data, Buf.slice_zero_eq_take]

end

/-! ## `ipcp_reqci` on the list and in the buffer -/

def IpcpReqVars.abs (s : IpcpReqVars) : IpcpReq := ⟨s.go, s.ho, s.inp.slice 0 s.ucp, s.rc⟩

/-- What a round leaves: the reply of the list, and the unread octets. -/
structure IpcpReqVars.Turned (s s' : IpcpReqVars) (r' : IpcpReq) : Prop where
  abs : s'.abs = r'
  behind : s'.ucp ≤ s'.next ∨ s'.l = 0
  unread : ∀ i, s'.next ≤ i → s'.l ≠ 0 → s'.inp i = s.inp i

section

variable {wo ao : IpcpOptions} {reject : Bool}

theorem ipcpEndswitch_next (cip cilen : Nat) (orc : ConfCode) (s : IpcpReqVars) :
    (ipcpEndswitch reject cip cilen orc s).next = s.next := by
  unfold ipcpEndswitch
  dsimp only
  split <;> rfl

theorem ipcpEndswitch_l (cip cilen : Nat) (orc : ConfCode) (s : IpcpReqVars) :
    (ipcpEndswitch reject cip cilen orc s).l = s.l := by
  unfold ipcpEndswitch
  dsimp only
  split <;> rfl

/-- What is moved, and whether the reply starts again, is the same on the list. -/
theorem ipcpEndswitch_abs {cip cilen : Nat} {orc : ConfCode} {s : IpcpReqVars} :
    (ipcpEndswitch reject cip cilen orc s).abs =
      ipcpReqDispose reject orc (s.inp.slice cip cilen) s.abs := by
  have hfront : (s.inp.move cip 0 cilen).slice 0 cilen = s.inp.slice cip cilen := by
    have h := s.inp.slice_move cip 0 cilen
    rwa [Nat.zero_add, show s.inp.slice 0 0 = [] from rfl, List.nil_append] at h
  unfold ipcpEndswitch ipcpReqDispose IpcpReqVars.abs
  dsimp only
  generalize (if orc = ConfCode.nak ∧ reject = true then ConfCode.rej else orc) = orc
  cases orc <;> cases hrc : s.rc <;> simp [Buf.slice_move, hfront, hrc]

theorem ipcpEndswitch_ucp (cip cilen : Nat) (orc : ConfCode) (s : IpcpReqVars) :
    (ipcpEndswitch reject cip cilen orc s).ucp ≤ s.ucp + cilen := by
  unfold ipcpEndswitch
  dsimp only
  split <;> simp

theorem ipcpEndswitch_unread {cip cilen i : Nat} {orc : ConfCode} {s : IpcpReqVars}
    (hi : s.ucp + cilen ≤ i) : (ipcpEndswitch reject cip cilen orc s).inp i = s.inp i := by
  unfold ipcpEndswitch
  dsimp only
  split
  all_goals first | rfl | exact Buf.move_of_ge hi | exact Buf.move_of_ge (by omega)

theorem ipcpReqTurn_of_bad {s : IpcpReqVars} (hbad : badCi s.inp s.next s.l) :
    ipcpReqTurn wo ao reject s = ipcpEndswitch reject s.next s.l .rej { s with l := 0 } :=
  if_pos hbad

theorem ipcpReqTurn_of_good {s : IpcpReqVars} (hgood : ¬ badCi s.inp s.next s.l) :
    ipcpReqTurn wo ao reject s =
      let citype := s.inp s.next
      let cilen := s.inp (s.next + 1)
      let body := s.inp.slice (s.next + 2) (cilen.toNat - 2)
      let v := ipcpReqOpt wo ao reject ⟨s.go, s.ho, [], s.rc⟩ citype cilen body
      ipcpEndswitch reject s.next cilen.toNat v.1
        ⟨s.inp.putAt (s.next + 2) v.2.1, s.next + cilen.toNat, s.l - cilen.toNat, s.ucp, s.rc,
          v.2.2.go, v.2.2.ho⟩ := if_neg hgood

theorem ipcpReqTurn_tail {s : IpcpReqVars} (hbad : badCi s.inp s.next s.l) :
    s.Turned (ipcpReqTurn wo ao reject s)
      (ipcpReqRound wo ao reject s.abs (.tail (s.inp.slice s.next s.l))) := by
  rw [ipcpReqTurn_of_bad hbad]
  refine ⟨ipcpEndswitch_abs, .inr (ipcpEndswitch_l ..), ?_⟩
  intro i _ h0
  rw [ipcpEndswitch_l] at h0
  exact absurd rfl h0

theorem ipcpReqTurn_opt {s : IpcpReqVars} (hgood : ¬ badCi s.inp s.next s.l)
    (h2 : 2 ≤ (s.inp (s.next + 1)).toNat) (hbehind : s.ucp ≤ s.next) :
    s.Turned (ipcpReqTurn wo ao reject s)
      (ipcpReqRound wo ao reject s.abs (.opt (s.inp s.next) (s.inp (s.next + 1))
        (s.inp.slice (s.next + 2) ((s.inp (s.next + 1)).toNat - 2)))) := by
  rw [ipcpReqTurn_of_good hgood, ipcpReqRound]
  dsimp only
  generalize hcl : s.inp (s.next + 1) = cilen at *
  generalize hct : s.inp s.next = citype
  generalize hbody : s.inp.slice (s.next + 2) (cilen.toNat - 2) = body
  have hlen : cilen.toNat = body.length + 2 := by
    rw [← hbody, Buf.length_slice]
    omega
  rw [ipcpReqOpt_frame, ipcpReqOpt_frame wo ao reject s.abs]
  simp only [IpcpReqVars.abs]
  have hnew : (ipcpVerdict wo ao reject s.go s.ho citype cilen body).2.1.length = body.length :=
    ipcpVerdict_length hlen
  generalize (ipcpVerdict wo ao reject s.go s.ho citype cilen body) = v at hnew
  -- the option with its new value, as it stands in the buffer when it is moved
  have hcip : (s.inp.putAt (s.next + 2) v.2.1).slice s.next cilen.toNat =
      citype :: cilen :: v.2.1 := by
    have hsame := @Buf.slice_putAt_same s.inp (s.next + 2) v.2.1
    rw [hnew] at hsame
    rw [hlen, Buf.slice_succ, Buf.slice_succ, hsame, Buf.putAt_of_lt _ (by omega),
      Buf.putAt_of_lt _ (by omega), hct, hcl]
  have hfront : (s.inp.putAt (s.next + 2) v.2.1).slice 0 s.ucp = s.inp.slice 0 s.ucp :=
    Buf.slice_putAt_apart _ (.inl (by omega))
  refine ⟨?_, .inl ?_, ?_⟩
  · rw [ipcpEndswitch_abs]
    simp only [IpcpReqVars.abs, hcip, hfront]
  · rw [ipcpEndswitch_next]
    exact (ipcpEndswitch_ucp ..).trans (Nat.add_le_add_right hbehind _)
  · intro i hi _
    rw [ipcpEndswitch_next] at hi
    have hi' : s.next + cilen.toNat ≤ i := hi
    rw [ipcpEndswitch_unread (by dsimp only; omega)]
    exact Buf.putAt_of_ge _ (by omega)

/-- The whole loop. -/
theorem ipcpReqLoop_eq (rounds : Nat) {s : IpcpReqVars} (hrounds : s.l ≤ rounds)
    (hbehind : s.ucp ≤ s.next ∨ s.l = 0) :
    (ipcpReqLoop wo ao reject rounds s).abs =
      (reqCis rounds (s.inp.slice s.next s.l)).foldl (ipcpReqRound wo ao reject) s.abs := by
  induction rounds generalizing s with
  | zero =>
      obtain h0 : s.l = 0 := Nat.le_zero.mp hrounds
      simp [ipcpReqLoop, reqCis]
  | succ rounds ih =>
      rw [ipcpReqLoop]
      by_cases h0 : s.l = 0
      · rw [if_pos h0, h0]
        simp [Buf.slice, reqCis]
      · rw [if_neg h0]
        rcases badCi_cases s.inp s.next s.l with hbad | ⟨hgood, h2, hle⟩
        · have hturned := @ipcpReqTurn_tail wo ao reject s hbad
          have hl : (ipcpReqTurn wo ao reject s).l = 0 := by
            rw [ipcpReqTurn_of_bad hbad, ipcpEndswitch_l]
          rw [ih (by omega) hturned.behind, hturned.abs, reqCis_slice_bad h0 hbad, hl]
          cases rounds <;> rfl
        · have hturned := @ipcpReqTurn_opt wo ao reject s hgood h2 (hbehind.resolve_right h0)
          have hnext : (ipcpReqTurn wo ao reject s).next =
              s.next + (s.inp (s.next + 1)).toNat := by
            rw [ipcpReqTurn_of_good hgood, ipcpEndswitch_next]
          have hl : (ipcpReqTurn wo ao reject s).l = s.l - (s.inp (s.next + 1)).toNat := by
            rw [ipcpReqTurn_of_good hgood, ipcpEndswitch_l]
          rw [ih (by omega) hturned.behind, hturned.abs, reqCis_slice_good hgood h2 hle,
            List.foldl_cons, ← hnext, ← hl]
          congr 2
          exact Buf.slice_congr fun i hi hlt => hturned.unread i hi (by omega)

/-- `ipcp_reqci` in the buffer is `ipcp_reqci` on the list of its octets. -/
theorem ipcpReqciAt_eq (o : Ipcp) (inp : Buf) (len : Nat) (reject : Bool) :
    ((ipcpReqciAt o inp len reject).1.rc, (ipcpReqciAt o inp len reject).1.data,
        (ipcpReqciAt o inp len reject).2) = ipcpReqci o (inp.take len) reject := by
  have habs := @ipcpReqLoop_eq o.want o.allow reject len (ipcpReqStart o inp len)
    (Nat.le_refl _) (.inl (Nat.le_refl _))
  rw [ipcpReqciAt, ipcpReqci, ipcpReqAsk]
  rw [Buf.length_take, ← Buf.slice_zero_eq_take]
  have hlist : (reqCis len (inp.slice 0 len)).foldl (ipcpReqRound o.want o.allow reject)
      { go := o.got, ho := IpcpOptions.zero, out := [], rc := .ack } = _ := habs.symm
  dsimp only
  rw [hlist]
  generalize ipcpReqLoop o.want o.allow reject len (ipcpReqStart o inp len) = s
  simp only [IpcpReqVars.abs]
  by_cases hask : s.rc ≠ .rej ∧ (!s.ho.negAddr) = true ∧ o.want.reqAddr = true ∧
      (!reject) = true
  · simp only [hask, and_self, ne_eq, not_false_eq_true, if_true]
    by_cases hack : s.rc = .ack
    · simp only [hack, if_true, Reply.data, ← Buf.slice_zero_eq_take, Buf.slice_putAt_same]
    · simp only [hack, if_false, Reply.data, ← Buf.slice_zero_eq_take]
      rw [Buf.slice_add, Nat.zero_add, Buf.slice_putAt_same,
        Buf.slice_putAt_apart _ (.inl (Nat.zero_add _).le)]
  · simp only [hask, if_false, Reply.data, Buf.slice_zero_eq_take]

end

end VxWorks.Ppp
