import VxWorks.Lib.Traced
import VxWorks.Netinet.IpOptions
import VxWorks.Netinet.SourceRoute

/-!
# What ip_dooptions touches (ip_input.c)

`ip_dooptions` once more, statement by statement, with an account of every octet
it reads and writes, and with the source route that `save_rte` keeps.

The loop's own test keeps an option inside of the header, but only once its
length octet has been read: an option whose first octet is the header's last has
its length outside. What is done with an option then depends on its length and
its pointer. For the routes the test for room is a comparison without sign, so
an option of less than four octets has room for everything. For the timestamps
the pointer is held against the end of the option, not against its beginning: a
stamp for a pointer below 3 lies over the length octet, the type or the option
before. With an address in front of it the stamp goes where the pointer octet
says, and an address put there by a pointer of 3 has taken that octet's place.
A round in which none of this happens is `Sound`, and those are exactly the
rounds that touch only what is theirs.

At `bad` the length of the header is taken off `ip_len`, for the ICMP error.
-/

namespace VxWorks.Netinet

open VxWorks.Lib VxWorks.Lib.Traced

def ipTosAt : Nat := 1

/-! ## The options -/

/-- What is left to do behind the `switch`. -/
inductive OptExit where
  | next (forward : Bool) (s : SrcRoute)
  | bad (type : IcmpType) (code : Nat)

/-- `save_rte` -/
def saveRteT (cp : Nat) (dst : UInt32) (s : SrcRoute) : Traced SrcRoute := do
  let olen := (← rd8 (cp + 1)).toNat
  if srcrtSize - (1 + 4) < olen then pure s
  else do
    let option ← rdSlice cp olen
    pure
      { nhops := (olen + 0x100000000 - ipoptOffset - 1) % 0x100000000 / 4
        srcrt := (s.srcrt.putAt srcrtSrcopt option).set32 srcrtDst dst }

/-- The interface a source route goes on by. -/
def routeIa (r : Router) (opt : UInt8) (ipaddr : UInt32) : Option UInt32 :=
  if opt = ipoptSsrr then
    match r.ifaIfwithdstaddr ipaddr with
    | some ia => some ia
    | none => r.ifaIfwithnet ipaddr
  else r.ipRtaddr ipaddr

/-- `IPOPT_LSRR` and `IPOPT_SSRR`. `TOS_SET` takes `ip_tos`. -/
def optSourceRouteT (r : Router) (opt : UInt8) (cp optlen : Nat) (forward : Bool)
    (s : SrcRoute) : Traced OptExit := do
  let off := (← rd8 (cp + 2)).toNat
  if off < ipoptMinoff then pure (.bad .paramprob (cp + 2))
  else do
    let ipaddr ← rd32 ipDstAt
    let _ ← rd8 ipTosAt
    match r.ifaIfwithaddr ipaddr with
    | none =>
        if opt = ipoptSsrr then pure (.bad .unreach icmpUnreachSrcfail)
        else pure (.next forward s)
    | some _ =>
        let off := off - 1
        if noRoom off optlen then do
          let src ← rd32 ipSrcAt
          let s ← saveRteT cp src s
          pure (.next forward s)
        else do
          let ipaddr ← rd32 (cp + off)
          match routeIa r opt ipaddr with
          | none => pure (.bad .unreach icmpUnreachSrcfail)
          | some ia => do
              wr32 ipDstAt ipaddr
              wr32 (cp + off) ia
              let ptr ← rd8 (cp + 2)
              wr8 (cp + 2) (ptr + 4)
              let dst ← rd32 ipDstAt
              pure (.next (!inMulticast dst) s)

/-- The interface whose address is recorded. -/
def recordIa (r : Router) (ipaddr : UInt32) : Option UInt32 :=
  match r.ifaIfwithaddr ipaddr with
  | some ia => some ia
  | none => r.ipRtaddr ipaddr

/-- `IPOPT_RR` -/
def optRecordRouteT (r : Router) (cp optlen : Nat) (forward : Bool) (s : SrcRoute) :
    Traced OptExit := do
  let off := (← rd8 (cp + 2)).toNat
  if off < ipoptMinoff then pure (.bad .paramprob (cp + 2))
  else
    let off := off - 1
    if noRoom off optlen then pure (.next forward s)
    else do
      let ipaddr ← rd32 ipDstAt
      match recordIa r ipaddr with
      | none => pure (.bad .unreach icmpUnreachHost)
      | some ia => do
          wr32 (cp + off) ia
          let ptr ← rd8 (cp + 2)
          wr8 (cp + 2) (ptr + 4)
          pure (.next forward s)

/-- `ntime` at the pointer, and the pointer moved on. -/
def optStampT (r : Router) (cp : Nat) : Traced Unit := do
  let ptr ← rd8 (cp + 2)
  wr32 (cp + ptr.toNat - 1) r.iptime
  let ptr ← rd8 (cp + 2)
  wr8 (cp + 2) (ptr + 4)

/-- `IPOPT_TS` -/
def optTimestampT (r : Router) (dst : UInt32) (cp : Nat) (forward : Bool) (s : SrcRoute) :
    Traced OptExit := do
  let len := (← rd8 (cp + 1)).toNat
  if len < 5 then pure (.bad .paramprob cp)
  else do
    let ptr := (← rd8 (cp + 2)).toNat
    let fourth := (← rd8 (cp + 3)).toNat
    let flg := fourth % 16
    let oflw := fourth / 16
    if len - 4 < ptr then do
      wr8 (cp + 3) (UInt8.ofNat ((oflw + 1) % 16 * 16 + flg))
      if (oflw + 1) % 16 = 0 then pure (.bad .paramprob cp) else pure (.next forward s)
    else if flg = 0 then do
      optStampT r cp
      pure (.next forward s)
    else if flg = 1 then
      if len < ptr + 8 then pure (.bad .paramprob cp)
      else
        match r.ifaofIfpforaddr dst with
        | none => pure (.next forward s)
        | some ia => do
            wr32 (cp + ptr - 1) ia
            let ptr ← rd8 (cp + 2)
            wr8 (cp + 2) (ptr + 4)
            optStampT r cp
            pure (.next forward s)
    else if flg = 3 then
      if len < ptr + 8 then pure (.bad .paramprob cp)
      else do
        let ipaddr ← rd32 (cp + ptr - 1)
        match r.ifaIfwithaddr ipaddr with
        | none => pure (.next forward s)
        | some _ => do
            let ptr ← rd8 (cp + 2)
            wr8 (cp + 2) (ptr + 4)
            optStampT r cp
            pure (.next forward s)
    else pure (.bad .paramprob cp)

/-- The `switch` over the option at `cp`. -/
def optSwitchT (r : Router) (dst : UInt32) (opt : UInt8) (cp optlen : Nat) (forward : Bool)
    (s : SrcRoute) : Traced OptExit :=
  if opt = ipoptLsrr ∨ opt = ipoptSsrr then optSourceRouteT r opt cp optlen forward s
  else if opt = ipoptRr then optRecordRouteT r cp optlen forward s
  else if opt = ipoptTs then optTimestampT r dst cp forward s
  else pure (.next forward s)

/-! ## The loop -/

/-- The end of one round: the loop ends at `IPOPT_EOL` or at `bad`, or an option is done. -/
inductive RoundExit where
  | eol
  | next (optlen : Nat) (forward : Bool) (s : SrcRoute)
  | bad (type : IcmpType) (code : Nat)

/-- How a `switch` of an option of `optlen` octets ends the round. -/
def OptExit.round (optlen : Nat) : OptExit → RoundExit
  | .next forward s => .next optlen forward s
  | .bad type code => .bad type code

/-- One round of the loop, with `cnt` octets of options left. -/
def optRoundT (r : Router) (dst : UInt32) (cp cnt : Nat) (forward : Bool) (s : SrcRoute) :
    Traced RoundExit := do
  let opt ← rd8 cp
  if opt = ipoptEol then pure .eol
  else if opt = ipoptNop then pure (.next 1 forward s)
  else do
    let optlen := (← rd8 (cp + 1)).toNat
    if optlen = 0 ∨ cnt < optlen then pure (.bad .paramprob (cp + 1))
    else do
      let exit ← optSwitchT r dst opt cp optlen forward s
      pure (exit.round optlen)

/-- A round of a run: where it began, and what it touched. -/
structure Round where
  buf : Buf
  cp : Nat
  cnt : Nat
  log : List Touch

/-- A run of the loop: its end, the memory, and its rounds. -/
structure LoopRun where
  exit : OptExit
  buf : Buf
  rounds : List Round

def dooptionsLoopT (r : Router) (dst : UInt32) :
    Nat → Nat → Nat → Bool → SrcRoute → Buf → LoopRun
  | 0, _, _, forward, s, b => ⟨.next forward s, b, []⟩
  | fuel + 1, cp, cnt, forward, s, b =>
      if cnt = 0 then ⟨.next forward s, b, []⟩
      else
        let o := (optRoundT r dst cp cnt forward s).run b
        let round : Round := ⟨b, cp, cnt, o.log⟩
        match o.val with
        | .eol => ⟨.next forward s, o.buf, [round]⟩
        | .bad type code => ⟨.bad type code, o.buf, [round]⟩
        | .next optlen forward s =>
            let run := dooptionsLoopT r dst fuel (cp + optlen) (cnt - optlen) forward s o.buf
            { run with rounds := round :: run.rounds }

/-- `ip->ip_len -= ip->ip_hl << 2` -/
def badT : Traced Unit := do
  let hl ← rd8 0
  let hi ← rd8 ipLenAt
  let lo ← rd8 (ipLenAt + 1)
  let len := get16 hi lo - UInt16.ofNat (hl.toNat % 16 * 4)
  wr8 ipLenAt (len >>> 8).toUInt8
  wr8 (ipLenAt + 1) len.toUInt8

/-- A run of `ip_dooptions`: what is touched before its loop, the rounds of the loop, and what is
touched behind it. -/
structure DooptionsRun where
  exit : OptExit
  buf : Buf
  before : List Touch
  rounds : List Round
  behind : List Touch

/-- `ip_dooptions` behind its loop. -/
def LoopRun.leave (before : List Touch) (run : LoopRun) : DooptionsRun :=
  match run.exit with
  | .next _ _ => ⟨run.exit, run.buf, before, run.rounds, []⟩
  | .bad _ _ =>
      let o := badT.run run.buf
      ⟨run.exit, o.buf, before, run.rounds, o.log⟩

/-- `ip_dooptions` -/
def ipDooptionsT (r : Router) (s : SrcRoute) (b : Buf) : DooptionsRun :=
  let dst := (rd32 ipDstAt).run b
  let hl := (rd8 0).run b
  let cnt := hl.val.toNat % 16 * 4 - 20
  (dooptionsLoopT r dst.val cnt 20 cnt false s b).leave (dst.log ++ hl.log)

/-! ## The account and the function -/

variable {r : Router} {opt : UInt8} {dst : UInt32} {cp cnt optlen hlen : Nat} {forward : Bool}
  {s : SrcRoute} {b : Buf}

/-- The memory with the exit. -/
def OptExit.onto (b : Buf) : OptExit → OptRound
  | .next forward _ => .next forward b
  | .bad type code => .bad type code

theorem saveRteT_val (cp : Nat) (dst : UInt32) (s : SrcRoute) (b : Buf) :
    ((saveRteT cp dst s).run b).val = saveRte b cp dst s := by
  simp only [saveRteT, saveRte, bind_val, rd8_val, rd8_buf]
  by_cases hlong : srcrtSize - (1 + 4) < (b (cp + 1)).toNat
  · simp only [hlong, if_true, pure_val]
  · simp only [hlong, if_false, bind_val, rdSlice_val, pure_val]

theorem saveRteT_buf (cp : Nat) (dst : UInt32) (s : SrcRoute) (b : Buf) :
    ((saveRteT cp dst s).run b).buf = b := by
  simp only [saveRteT, bind_buf, rd8_val, rd8_buf]
  by_cases hlong : srcrtSize - (1 + 4) < (b (cp + 1)).toNat
  · simp only [hlong, if_true, pure_buf]
  · simp only [hlong, if_false, bind_buf, rdSlice_buf, pure_buf]

theorem optSourceRouteT_onto (hcp : 20 ≤ cp) (r : Router) (opt : UInt8) (optlen : Nat)
    (forward : Bool) (s : SrcRoute) (b : Buf) :
    ((optSourceRouteT r opt cp optlen forward s).run b).val.onto
        ((optSourceRouteT r opt cp optlen forward s).run b).buf =
      optSourceRoute r opt cp optlen forward b := by
  unfold optSourceRouteT optSourceRoute
  simp only [bind_val, bind_buf, rd8_val, rd8_buf]
  by_cases hoff : (b (cp + 2)).toNat < ipoptMinoff
  · simp only [hoff, if_true]
    rfl
  simp only [hoff, if_false, bind_val, bind_buf, rd32_val, rd32_buf, rd8_buf]
  cases r.ifaIfwithaddr (b.u32 ipDstAt) with
  | none => by_cases hstrict : opt = ipoptSsrr <;> simp only [hstrict, if_true, if_false] <;> rfl
  | some here =>
      by_cases hroom : noRoom ((b (cp + 2)).toNat - 1) optlen = true
      · simp only [hroom, if_true, bind_val, bind_buf, rd32_buf, saveRteT_buf]
        rfl
      · have hdst : ∀ ipaddr ia v, (((b.set32 ipDstAt ipaddr).set32
            (cp + ((b (cp + 2)).toNat - 1)) ia).set8 (cp + 2) v).u32 ipDstAt = ipaddr := by
          intro ipaddr ia v
          rw [Buf.u32_set8_of_ne _ (by rw [ipDstAt]; omega),
            Buf.u32_set32_of_ne _ (by rw [ipDstAt]; omega), Buf.u32_set32_same]
        simp only [hroom, Bool.false_eq_true, if_false, bind_val, bind_buf, rd32_val, rd32_buf]
        change _ = match routeIa r opt (b.u32 (cp + ((b (cp + 2)).toNat - 1))) with
          | none => OptRound.bad .unreach icmpUnreachSrcfail
          | some ia => OptRound.next _ _
        cases routeIa r opt (b.u32 (cp + ((b (cp + 2)).toNat - 1))) with
        | none => rfl
        | some ia =>
            simp only [bind_val, bind_buf, rd32_val, rd32_buf, rd8_val, rd8_buf, wr32_buf, wr8_buf,
              hdst, pure_val, pure_buf]
            rfl

theorem optRecordRouteT_onto (r : Router) (cp optlen : Nat) (forward : Bool) (s : SrcRoute)
    (b : Buf) :
    ((optRecordRouteT r cp optlen forward s).run b).val.onto
        ((optRecordRouteT r cp optlen forward s).run b).buf =
      optRecordRoute r cp optlen forward b := by
  unfold optRecordRouteT optRecordRoute
  simp only [bind_val, bind_buf, rd8_val, rd8_buf]
  by_cases hoff : (b (cp + 2)).toNat < ipoptMinoff
  · simp only [hoff, if_true]
    rfl
  simp only [hoff, if_false]
  by_cases hroom : noRoom ((b (cp + 2)).toNat - 1) optlen = true
  · simp only [hroom, if_true]
    rfl
  simp only [hroom, Bool.false_eq_true, if_false, bind_val, bind_buf, rd32_val, rd32_buf]
  change _ = match recordIa r (b.u32 ipDstAt) with
    | none => OptRound.bad .unreach icmpUnreachHost
    | some ia => OptRound.next _ _
  cases recordIa r (b.u32 ipDstAt) <;> rfl

theorem optTimestampT_onto (r : Router) (dst : UInt32) (cp : Nat) (forward : Bool) (s : SrcRoute)
    (b : Buf) :
    ((optTimestampT r dst cp forward s).run b).val.onto
        ((optTimestampT r dst cp forward s).run b).buf =
      optTimestamp r dst cp forward b := by
  unfold optTimestampT optTimestamp
  simp only [bind_val, bind_buf, rd8_val, rd8_buf]
  by_cases hshort : (b (cp + 1)).toNat < 5
  · simp only [hshort, if_true]
    rfl
  simp only [hshort, if_false, bind_val, bind_buf, rd8_val, rd8_buf]
  by_cases hfull : (b (cp + 1)).toNat - 4 < (b (cp + 2)).toNat
  · simp only [hfull, if_true, bind_val, bind_buf, wr8_buf]
    by_cases hoflw : ((b (cp + 3)).toNat / 16 + 1) % 16 = 0 <;>
      simp only [hoflw, if_true, if_false] <;> rfl
  simp only [hfull, if_false]
  by_cases htsonly : (b (cp + 3)).toNat % 16 = 0
  · simp only [htsonly, if_true]
    rfl
  simp only [htsonly, if_false]
  by_cases haddr : (b (cp + 3)).toNat % 16 = 1
  · simp only [haddr, if_true]
    by_cases hroom : (b (cp + 1)).toNat < (b (cp + 2)).toNat + 8
    · simp only [hroom, if_true]
      rfl
    · simp only [hroom, if_false]
      cases r.ifaofIfpforaddr dst <;> rfl
  simp only [haddr, if_false]
  by_cases hprespec : (b (cp + 3)).toNat % 16 = 3
  · simp only [hprespec, if_true]
    by_cases hroom : (b (cp + 1)).toNat < (b (cp + 2)).toNat + 8
    · simp only [hroom, if_true]
      rfl
    · simp only [hroom, if_false, bind_val, bind_buf, rd32_val, rd32_buf]
      cases r.ifaIfwithaddr (b.u32 (cp + (b (cp + 2)).toNat - 1)) <;> rfl
  · simp only [hprespec, if_false]
    rfl

theorem optSwitchT_onto (hcp : 20 ≤ cp) (r : Router) (dst : UInt32) (optlen : Nat)
    (forward : Bool) (s : SrcRoute) (b : Buf) :
    ((optSwitchT r dst (b cp) cp optlen forward s).run b).val.onto
        ((optSwitchT r dst (b cp) cp optlen forward s).run b).buf =
      optSwitch r dst cp optlen forward b := by
  unfold optSwitchT optSwitch
  dsimp only
  by_cases hroute : b cp = ipoptLsrr ∨ b cp = ipoptSsrr
  · rw [if_pos hroute, if_pos hroute]
    exact optSourceRouteT_onto hcp ..
  rw [if_neg hroute, if_neg hroute]
  by_cases hrr : b cp = ipoptRr
  · rw [if_pos hrr, if_pos hrr]
    exact optRecordRouteT_onto ..
  rw [if_neg hrr, if_neg hrr]
  by_cases hts : b cp = ipoptTs
  · rw [if_pos hts, if_pos hts]
    exact optTimestampT_onto ..
  · rw [if_neg hts, if_neg hts]
    rfl

theorem optRoundT_eol (h : b cp = ipoptEol) :
    (optRoundT r dst cp cnt forward s).run b = ⟨.eol, b, [.read cp]⟩ := by
  simp only [optRoundT, bind_run, rd8_run, h, if_true]
  rfl

theorem optRoundT_nop (h : b cp = ipoptNop) :
    (optRoundT r dst cp cnt forward s).run b = ⟨.next 1 forward s, b, [.read cp]⟩ := by
  have hne : ipoptNop ≠ ipoptEol := by decide
  simp only [optRoundT, bind_run, rd8_run, h, hne, if_false, if_true]
  rfl

theorem optRoundT_bad (heol : b cp ≠ ipoptEol) (hnop : b cp ≠ ipoptNop)
    (h : (b (cp + 1)).toNat = 0 ∨ cnt < (b (cp + 1)).toNat) :
    (optRoundT r dst cp cnt forward s).run b =
      ⟨.bad .paramprob (cp + 1), b, [.read cp, .read (cp + 1)]⟩ := by
  simp only [optRoundT, bind_run, rd8_run, heol, hnop, h, if_false, if_true]
  rfl

theorem optRoundT_opt (heol : b cp ≠ ipoptEol) (hnop : b cp ≠ ipoptNop)
    (h : ¬ ((b (cp + 1)).toNat = 0 ∨ cnt < (b (cp + 1)).toNat)) :
    (optRoundT r dst cp cnt forward s).run b =
      (let o := (optSwitchT r dst (b cp) cp (b (cp + 1)).toNat forward s).run b
      ⟨o.val.round (b (cp + 1)).toNat, o.buf, [.read cp, .read (cp + 1)] ++ o.log⟩) := by
  simp only [optRoundT, bind_run, rd8_run, heol, hnop, h, if_false]
  rw [← List.append_assoc, ← List.append_assoc]
  simp [pure_run]

/-- Without its account the run of the loop is the loop. -/
theorem dooptionsLoopT_onto (r : Router) (dst : UInt32) (fuel : Nat) :
    ∀ (cp cnt : Nat) (forward : Bool) (s : SrcRoute) (b : Buf), 20 ≤ cp →
      (dooptionsLoopT r dst fuel cp cnt forward s b).exit.onto
          (dooptionsLoopT r dst fuel cp cnt forward s b).buf =
        dooptionsLoop r dst fuel cp cnt forward b := by
  induction fuel with
  | zero => exact fun _ _ _ _ _ _ => rfl
  | succ fuel ih =>
      intro cp cnt forward s b hcp
      rw [dooptionsLoopT, dooptionsLoop]
      by_cases hcnt : cnt = 0
      · rw [if_pos hcnt, if_pos (.inl hcnt)]
        rfl
      by_cases heol : b cp = ipoptEol
      · rw [if_neg hcnt, if_pos (.inr heol), optRoundT_eol heol]
        rfl
      rw [if_neg hcnt, if_neg (not_or.mpr ⟨hcnt, heol⟩)]
      by_cases hnop : b cp = ipoptNop
      · have hne : ¬ (1 = 0 ∨ cnt < 1) := by omega
        have hswitch : optSwitch r dst cp 1 forward b = .next forward b := by
          rw [optSwitch]
          simp only [hnop]
          rfl
        rw [optRoundT_nop hnop]
        simp only [hnop, if_true, hne, if_false, hswitch]
        exact ih _ _ _ _ _ (by omega)
      simp only [hnop, if_false]
      by_cases hbad : (b (cp + 1)).toNat = 0 ∨ cnt < (b (cp + 1)).toNat
      · rw [if_pos hbad, optRoundT_bad heol hnop hbad]
        rfl
      · rw [if_neg hbad, optRoundT_opt heol hnop hbad,
          ← optSwitchT_onto hcp r dst (b (cp + 1)).toNat forward s b]
        dsimp only
        cases ((optSwitchT r dst (b cp) cp (b (cp + 1)).toNat forward s).run b).val with
        | bad type code => rfl
        | next forward s => exact ih _ _ _ _ _ (by omega)

/-- The run of the loop in a run of `ip_dooptions`. -/
def optionsRun (r : Router) (s : SrcRoute) (b : Buf) : LoopRun :=
  dooptionsLoopT r (b.u32 ipDstAt) (ipHlen b - 20) 20 (ipHlen b - 20) false s b

theorem ipDooptionsT_eq (r : Router) (s : SrcRoute) (b : Buf) :
    ipDooptionsT r s b =
      (optionsRun r s b).leave (((rd32 ipDstAt).run b).log ++ ((rd8 0).run b).log) := rfl

theorem ipDooptionsT_rounds (r : Router) (s : SrcRoute) (b : Buf) :
    (ipDooptionsT r s b).rounds = (optionsRun r s b).rounds := by
  rw [ipDooptionsT_eq, LoopRun.leave]
  cases (optionsRun r s b).exit <;> rfl

/-- Without its account the run of `ip_dooptions` is `ip_dooptions`. -/
theorem ipDooptionsT_onto (r : Router) (s : SrcRoute) (b : Buf) :
    ((ipDooptionsT r s b).exit.onto (ipDooptionsT r s b).buf).dooptions = ipDooptions r b := by
  rw [ipDooptions, ← dooptionsLoopT_onto r (b.u32 ipDstAt) (ipHlen b - 20) 20 (ipHlen b - 20) false
    s b (Nat.le_refl 20), ← optionsRun, ipDooptionsT_eq, LoopRun.leave]
  cases (optionsRun r s b).exit <;> rfl

/-! ## The rounds -/

theorem OptExit.round_next {exit : OptExit} {n : Nat} {forward' : Bool} {s' : SrcRoute}
    (h : exit.round n = .next optlen forward' s') : optlen = n := by
  cases exit <;> cases h
  rfl

/-- A round takes at least one octet, and no more than there are. -/
theorem optRoundT_takes (hcnt : cnt ≠ 0) {forward' : Bool} {s' : SrcRoute}
    (h : ((optRoundT r dst cp cnt forward s).run b).val = .next optlen forward' s') :
    1 ≤ optlen ∧ optlen ≤ cnt := by
  by_cases heol : b cp = ipoptEol
  · rw [optRoundT_eol heol] at h
    cases h
  by_cases hnop : b cp = ipoptNop
  · rw [optRoundT_nop hnop] at h
    cases h
    omega
  by_cases hbad : (b (cp + 1)).toNat = 0 ∨ cnt < (b (cp + 1)).toNat
  · rw [optRoundT_bad heol hnop hbad] at h
    cases h
  · rw [optRoundT_opt heol hnop hbad] at h
    have hlen := OptExit.round_next h
    omega

/-- As many rounds as there are octets of options are enough. -/
theorem dooptionsLoopT_fuel (r : Router) (dst : UInt32) {fuel fuel' : Nat} (hcnt : cnt ≤ fuel)
    (hcnt' : cnt ≤ fuel') (cp : Nat) (forward : Bool) (s : SrcRoute) (b : Buf) :
    dooptionsLoopT r dst fuel cp cnt forward s b =
      dooptionsLoopT r dst fuel' cp cnt forward s b := by
  induction fuel generalizing fuel' cp cnt forward s b with
  | zero =>
      obtain rfl : cnt = 0 := by omega
      cases fuel' <;> rfl
  | succ fuel ih =>
      by_cases hzero : cnt = 0
      · subst hzero
        cases fuel' <;> rfl
      obtain ⟨fuel', rfl⟩ : ∃ k, fuel' = k + 1 := ⟨fuel' - 1, by omega⟩
      rw [dooptionsLoopT, dooptionsLoopT, if_neg hzero, if_neg hzero]
      dsimp only
      cases hround : ((optRoundT r dst cp cnt forward s).run b).val with
      | eol => rfl
      | bad type code => rfl
      | next optlen forward' s' =>
          obtain ⟨hpos, hle⟩ := optRoundT_takes hzero hround
          dsimp only
          have hfuel : cnt - optlen ≤ fuel' := by omega
          rw [ih (by omega) hfuel]

/-- A round as the loop makes it, in a header of `hlen` octets. -/
structure Round.Of (r : Router) (dst : UInt32) (hlen : Nat) (round : Round) : Prop where
  log : ∃ forward s,
    round.log = ((optRoundT r dst round.cp round.cnt forward s).run round.buf).log
  cp : 20 ≤ round.cp
  cnt : round.cnt ≠ 0
  hlen : round.cp + round.cnt = hlen

theorem rounds_of (r : Router) (dst : UInt32) {fuel : Nat} (hcp : 20 ≤ cp) (hall : cp + cnt = hlen) :
    ∀ round ∈ (dooptionsLoopT r dst fuel cp cnt forward s b).rounds, round.Of r dst hlen := by
  induction fuel generalizing cp cnt forward s b with
  | zero => exact fun _ h => absurd h List.not_mem_nil
  | succ fuel ih =>
      rw [dooptionsLoopT]
      by_cases hzero : cnt = 0
      · rw [if_pos hzero]
        exact fun _ h => absurd h List.not_mem_nil
      rw [if_neg hzero]
      have hfirst : Round.Of r dst hlen
          ⟨b, cp, cnt, ((optRoundT r dst cp cnt forward s).run b).log⟩ :=
        ⟨⟨forward, s, rfl⟩, hcp, hzero, hall⟩
      dsimp only
      cases hround : ((optRoundT r dst cp cnt forward s).run b).val with
      | eol => exact List.forall_mem_singleton.mpr hfirst
      | bad type code => exact List.forall_mem_singleton.mpr hfirst
      | next optlen forward' s' =>
          obtain ⟨hpos, hle⟩ := optRoundT_takes hzero hround
          exact List.forall_mem_cons.mpr ⟨hfirst, ih (by omega) (by omega)⟩

/-! ## What belongs to a round -/

/-- The options that something is recorded in. -/
def Recording (opt : UInt8) : Prop :=
  opt = ipoptLsrr ∨ opt = ipoptSsrr ∨ opt = ipoptRr ∨ opt = ipoptTs

/-- The octets of an option behind its type and its length. -/
def InOption (b : Buf) (cp a : Nat) : Prop := cp + 2 ≤ a ∧ a < cp + (b (cp + 1)).toNat

/-- What the round of the option at `cp` may touch in a header of `hlen` octets. -/
def May (hlen : Nat) (b : Buf) (cp : Nat) : Touch → Prop
  | .read a => a < hlen
  | .write a =>
      ipDstAt ≤ a ∧ a < ipDstAt + 4 ∨
        Recording (b cp) ∧ cp + (b (cp + 1)).toNat ≤ hlen ∧ InOption b cp a

theorem may_read {a : Nat} : May hlen b cp (.read a) ↔ a < hlen := Iff.rfl

theorem word_lt {a n : Nat} : (∀ i, i < 4 → a + i < n) ↔ a + 3 < n :=
  ⟨fun h => h 3 (by decide), fun h i hi => by omega⟩

theorem may_write {a : Nat} (ha : 20 ≤ a) (hrec : Recording (b cp))
    (hfit : cp + (b (cp + 1)).toNat ≤ hlen) : May hlen b cp (.write a) ↔ InOption b cp a := by
  have hdst : ¬ (ipDstAt ≤ a ∧ a < ipDstAt + 4) := by
    rw [ipDstAt]
    omega
  simp only [May, hdst, hrec, hfit, false_or, true_and]

theorem may_write_dst : (∀ i, i < 4 → May hlen b cp (.write (ipDstAt + i))) ↔ True :=
  iff_true_intro fun i hi => .inl ⟨Nat.le_add_right .., by omega⟩

/-- A word that begins behind the address may be written where it lies within the option. -/
theorem may_write_word {a : Nat} (hcp : 20 ≤ cp) (ha : 19 ≤ a) (hrec : Recording (b cp))
    (hfit : cp + (b (cp + 1)).toNat ≤ hlen) :
    (∀ i, i < 4 → May hlen b cp (.write (a + i))) ↔
      cp + 2 ≤ a ∧ a + 4 ≤ cp + (b (cp + 1)).toNat := by
  constructor
  · intro h
    have h1 := (may_write (by omega) hrec hfit).mp (h 1 (by decide))
    have h3 := (may_write (by omega) hrec hfit).mp (h 3 (by decide))
    simp only [InOption] at h1 h3
    have h0 := (may_write (by omega) hrec hfit).mp (h 0 (by decide))
    simp only [InOption] at h0
    omega
  · rintro ⟨hlo, hhi⟩ i hi
    rw [may_write (by omega) hrec hfit, InOption]
    omega

/-! ## Sound options -/

/-- A source route has its pointer in the header, and nothing is moved in one of less than four
octets. -/
def SourceRouteSound (r : Router) (opt : UInt8) (cp cnt : Nat) (b : Buf) : Prop :=
  let off := (b (cp + 2)).toNat
  3 ≤ cnt ∧ (4 ≤ (b (cp + 1)).toNat ∨ off < ipoptMinoff ∨
    r.ifaIfwithaddr (b.u32 ipDstAt) = none ∨
      off + 3 ≤ cnt ∧ routeIa r opt (b.u32 (cp + (off - 1))) = none)

/-- Likewise for a recorded route. -/
def RecordRouteSound (r : Router) (cp cnt : Nat) (b : Buf) : Prop :=
  3 ≤ cnt ∧ (4 ≤ (b (cp + 1)).toNat ∨ (b (cp + 2)).toNat < ipoptMinoff ∨
    recordIa r (b.u32 ipDstAt) = none)

/-- A timestamp is put behind the length octet, also where an address has been put over the
pointer before. -/
def TimestampSound (r : Router) (dst : UInt32) (cp : Nat) (b : Buf) : Prop :=
  let len := (b (cp + 1)).toNat
  let ptr := (b (cp + 2)).toNat
  let flg := (b (cp + 3)).toNat % 16
  len < 5 ∨ len - 4 < ptr ∨
    ((flg = 0 → 3 ≤ ptr) ∧
      (flg = 1 → ptr + 8 ≤ len → ∀ ia ∈ r.ifaofIfpforaddr dst,
        3 ≤ ptr ∧ (ptr = 3 → 3 ≤ ((ia >>> 24).toUInt8 + 4).toNat ∧
          ((ia >>> 24).toUInt8 + 4).toNat + 3 ≤ len)))

theorem noRoom_iff {off optlen : Nat} (h : optlen < 0x100000000) :
    noRoom off optlen = true ↔
      4 ≤ optlen ∧ optlen < off + 4 ∨ optlen < 4 ∧ optlen + 0xfffffffc < off := by
  rw [noRoom, decide_eq_true_iff]
  omega

theorem noRoom_octets {n k : UInt8} (h4 : 4 ≤ k.toNat) :
    noRoom (k.toNat - 1) n.toNat = true ↔ 4 ≤ n.toNat ∧ n.toNat < k.toNat + 3 := by
  have hn := n.toNat_lt
  have hk := k.toNat_lt
  rw [noRoom_iff (by omega)]
  omega

theorem stays_saveRte (dst : UInt32) (h : cp + 1 < hlen) (hfit : cp + (b (cp + 1)).toNat ≤ hlen) :
    Stays (May hlen b cp) (saveRteT cp dst s) b := by
  simp only [saveRteT, stays_bind, stays_rd8, rd8_val, rd8_buf, may_read]
  refine ⟨h, ?_⟩
  by_cases hlong : srcrtSize - (1 + 4) < (b (cp + 1)).toNat
  · simp only [hlong, if_true, stays_pure]
  · simp only [hlong, if_false, stays_bind, stays_rdSlice, stays_pure, and_true, may_read]
    intro i hi
    omega

theorem stays_sourceRoute (hcp : 20 ≤ cp) (hrec : Recording (b cp)) (hall : cp + cnt = hlen)
    (hfit : (b (cp + 1)).toNat ≤ cnt) :
    Stays (May hlen b cp) (optSourceRouteT r opt cp (b (cp + 1)).toNat forward s) b ↔
      SourceRouteSound r opt cp cnt b := by
  have hopt : cp + (b (cp + 1)).toNat ≤ hlen := by omega
  have hread : cp + 2 < hlen ↔ 3 ≤ cnt := by omega
  simp only [optSourceRouteT, SourceRouteSound, stays_bind, stays_rd8, rd8_val, rd8_buf, may_read,
    hread]
  refine and_congr_right ?_
  intro hcnt
  by_cases hoff : (b (cp + 2)).toNat < ipoptMinoff
  · simp only [hoff, if_true, stays_pure, true_or, or_true]
  have hfront : ipDstAt + 3 < hlen ∧ ipTosAt < hlen ∧ ipSrcAt + 3 < hlen := by
    simp only [ipDstAt, ipTosAt, ipSrcAt]
    omega
  simp only [hoff, if_false, false_or, stays_bind, stays_rd8, stays_rd32, may_read, word_lt,
    rd8_buf, rd32_val, rd32_buf, hfront, true_and]
  cases r.ifaIfwithaddr (b.u32 ipDstAt) with
  | none =>
      by_cases hstrict : opt = ipoptSsrr <;>
        simp only [hstrict, if_true, if_false, stays_pure, true_or, or_true]
  | some here =>
      rw [ipoptMinoff, Nat.not_lt] at hoff
      have hroom := noRoom_octets (n := b (cp + 1)) hoff
      by_cases hno : noRoom ((b (cp + 2)).toNat - 1) (b (cp + 1)).toNat = true
      · have hlong := hroom.mp hno
        simp only [hno, if_true, stays_bind, stays_rd32, may_read, word_lt, rd32_val, rd32_buf,
          hfront, true_and, stays_pure, and_true, hlong.1, true_or, iff_true]
        exact stays_saveRte _ (by omega) hopt
      have hroom' := mt hroom.mpr hno
      have hoff1 : cp + ((b (cp + 2)).toNat - 1) + 3 = cp + (b (cp + 2)).toNat + 2 := by omega
      simp only [hno, Bool.false_eq_true, if_false, stays_bind, stays_rd32, may_read, word_lt,
        rd32_val, rd32_buf, reduceCtorEq, false_or, hoff1]
      cases routeIa r opt (b.u32 (cp + ((b (cp + 2)).toNat - 1))) with
      | none =>
          simp only [stays_pure, and_true]
          omega
      | some ia =>
          simp only [stays_bind, stays_wr32, stays_wr8, stays_rd8, stays_rd32, stays_pure, and_true,
            true_and, may_read, word_lt, hfront, may_write_dst,
            may_write_word hcp (by omega : 19 ≤ cp + ((b (cp + 2)).toNat - 1)) hrec hopt,
            may_write (by omega : 20 ≤ cp + 2) hrec hopt, InOption, reduceCtorEq, and_false, or_false]
          omega

theorem stays_recordRoute (hcp : 20 ≤ cp) (hrec : Recording (b cp)) (hall : cp + cnt = hlen)
    (hfit : (b (cp + 1)).toNat ≤ cnt) :
    Stays (May hlen b cp) (optRecordRouteT r cp (b (cp + 1)).toNat forward s) b ↔
      RecordRouteSound r cp cnt b := by
  have hopt : cp + (b (cp + 1)).toNat ≤ hlen := by omega
  have hread : cp + 2 < hlen ↔ 3 ≤ cnt := by omega
  simp only [optRecordRouteT, RecordRouteSound, stays_bind, stays_rd8, rd8_val, rd8_buf, may_read,
    hread]
  refine and_congr_right ?_
  intro hcnt
  by_cases hoff : (b (cp + 2)).toNat < ipoptMinoff
  · simp only [hoff, if_true, stays_pure, true_or, or_true]
  simp only [hoff, if_false, false_or]
  rw [ipoptMinoff, Nat.not_lt] at hoff
  have hroom := noRoom_octets (n := b (cp + 1)) hoff
  by_cases hno : noRoom ((b (cp + 2)).toNat - 1) (b (cp + 1)).toNat = true
  · have hlong := hroom.mp hno
    simp only [hno, if_true, stays_pure, hlong.1, true_or]
  have hroom' := mt hroom.mpr hno
  have hdst : ipDstAt + 3 < hlen := by
    rw [ipDstAt]
    omega
  simp only [hno, Bool.false_eq_true, if_false, stays_bind, stays_rd32, may_read, word_lt, hdst,
    true_and, rd32_val, rd32_buf]
  cases recordIa r (b.u32 ipDstAt) with
  | none => simp only [stays_pure, or_true]
  | some ia =>
      simp only [stays_bind, stays_wr32, stays_wr8, stays_rd8, stays_pure, and_true, may_read,
        may_write_word hcp (by omega : 19 ≤ cp + ((b (cp + 2)).toNat - 1)) hrec hopt,
        may_write (by omega : 20 ≤ cp + 2) hrec hopt, InOption, reduceCtorEq, or_false]
      omega

/-- A stamp lies within its option where its pointer says so. -/
theorem stays_stamp {b' : Buf} (hcp : 20 ≤ cp) (hrec : Recording (b cp))
    (hopt : cp + (b (cp + 1)).toNat ≤ hlen) (hlong : 5 ≤ (b (cp + 1)).toNat) :
    Stays (May hlen b cp) (optStampT r cp) b' ↔
      3 ≤ (b' (cp + 2)).toNat ∧ (b' (cp + 2)).toNat + 3 ≤ (b (cp + 1)).toNat := by
  simp only [optStampT, stays_bind, stays_rd8, stays_wr32, stays_wr8, rd8_val, rd8_buf, may_read,
    may_write_word hcp (by omega : 19 ≤ cp + (b' (cp + 2)).toNat - 1) hrec hopt,
    may_write (by omega : 20 ≤ cp + 2) hrec hopt, InOption]
  omega

theorem toNat_add_four {v : UInt8} (h : v.toNat + 8 ≤ 255) : (v + 4).toNat = v.toNat + 4 := by
  rw [UInt8.toNat_add]
  show (v.toNat + 4) % 256 = _
  omega

/-- The address goes in front of the stamp; put at the pointer itself it has its place. -/
theorem stays_address (hcp : 20 ≤ cp) (hrec : Recording (b cp))
    (hopt : cp + (b (cp + 1)).toNat ≤ hlen) (hlong : 5 ≤ (b (cp + 1)).toNat)
    (hroom : (b (cp + 2)).toNat + 8 ≤ (b (cp + 1)).toNat) (ia : UInt32) :
    Stays (May hlen b cp) (do
        wr32 (cp + (b (cp + 2)).toNat - 1) ia
        let ptr ← rd8 (cp + 2)
        wr8 (cp + 2) (ptr + 4)
        optStampT r cp
        pure (OptExit.next forward s)) b ↔
      3 ≤ (b (cp + 2)).toNat ∧ ((b (cp + 2)).toNat = 3 → 3 ≤ ((ia >>> 24).toUInt8 + 4).toNat ∧
        ((ia >>> 24).toUInt8 + 4).toNat + 3 ≤ (b (cp + 1)).toNat) := by
  have hmax := (b (cp + 1)).toNat_lt
  simp only [stays_bind, stays_rd8, stays_wr32, stays_wr8, rd8_val, rd8_buf, wr32_buf, wr8_buf,
    may_read, may_write_word hcp (by omega : 19 ≤ cp + (b (cp + 2)).toNat - 1) hrec hopt,
    may_write (by omega : 20 ≤ cp + 2) hrec hopt, InOption, stays_stamp hcp hrec hopt hlong,
    Buf.set8_same, stays_pure, and_true]
  rcases Nat.lt_trichotomy (b (cp + 2)).toNat 3 with hlow | heq | hhigh
  · omega
  · have hover : (b.set32 (cp + (b (cp + 2)).toNat - 1) ia) (cp + 2) = (ia >>> 24).toUInt8 := by
      rw [heq]
      exact if_pos (by omega)
    rw [hover]
    omega
  · have hkept : (b.set32 (cp + (b (cp + 2)).toNat - 1) ia) (cp + 2) = b (cp + 2) :=
      Buf.set32_of_ne _ (by omega)
    rw [hkept, toNat_add_four (by omega)]
    omega

theorem stays_timestamp (hcp : 20 ≤ cp) (hrec : Recording (b cp)) (hall : cp + cnt = hlen)
    (hfit : (b (cp + 1)).toNat ≤ cnt) (hcnt : 2 ≤ cnt) :
    Stays (May hlen b cp) (optTimestampT r dst cp forward s) b ↔ TimestampSound r dst cp b := by
  have hopt : cp + (b (cp + 1)).toNat ≤ hlen := by omega
  have hmax := (b (cp + 1)).toNat_lt
  simp only [optTimestampT, TimestampSound, stays_bind, stays_rd8, rd8_val, rd8_buf, may_read,
    (by omega : cp + 1 < hlen), true_and]
  by_cases hshort : (b (cp + 1)).toNat < 5
  · simp only [hshort, if_true, stays_pure, true_or]
  have hlong : 5 ≤ (b (cp + 1)).toNat := Nat.not_lt.mp hshort
  simp only [hshort, if_false, false_or, stays_bind, stays_rd8, rd8_val, rd8_buf, may_read,
    (by omega : cp + 2 < hlen), (by omega : cp + 3 < hlen), true_and]
  by_cases hfull : (b (cp + 1)).toNat - 4 < (b (cp + 2)).toNat
  · simp only [hfull, if_true, true_or, iff_true, stays_bind, stays_wr8,
      may_write (by omega : 20 ≤ cp + 3) hrec hopt, InOption]
    refine ⟨by omega, ?_⟩
    by_cases hoflw : ((b (cp + 3)).toNat / 16 + 1) % 16 = 0 <;>
      simp only [hoflw, if_true, if_false, stays_pure]
  simp only [hfull, if_false, false_or]
  by_cases htsonly : (b (cp + 3)).toNat % 16 = 0
  · simp only [htsonly, if_true, stays_bind, stays_stamp hcp hrec hopt hlong, stays_pure, and_true,
      zero_ne_one, forall_const, false_implies]
    omega
  by_cases haddr : (b (cp + 3)).toNat % 16 = 1
  · simp only [haddr, if_true, one_ne_zero, if_false, false_implies, true_and, forall_const]
    by_cases hroom : (b (cp + 1)).toNat < (b (cp + 2)).toNat + 8
    · simp only [hroom, if_true, stays_pure, Nat.not_le.mpr hroom, false_implies]
    · simp only [hroom, if_false]
      cases r.ifaofIfpforaddr dst with
      | none => simp only [stays_pure, Option.not_mem_none, false_implies, implies_true]
      | some ia =>
          simp only [stays_address hcp hrec hopt hlong (Nat.not_lt.mp hroom), Option.mem_some_iff,
            forall_eq', Nat.not_lt.mp hroom, forall_const]
  simp only [htsonly, haddr, if_false, false_implies, and_self, iff_true]
  by_cases hprespec : (b (cp + 3)).toNat % 16 = 3
  · simp only [hprespec, if_true]
    by_cases hroom : (b (cp + 1)).toNat < (b (cp + 2)).toNat + 8
    · simp only [hroom, if_true, stays_pure]
    · simp only [hroom, if_false, stays_bind, stays_rd32, rd32_val, rd32_buf, may_read, word_lt]
      refine ⟨by omega, ?_⟩
      cases r.ifaIfwithaddr (b.u32 (cp + (b (cp + 2)).toNat - 1)) with
      | none => simp only [stays_pure]
      | some _ =>
          simp only [stays_bind, stays_rd8, stays_wr8, rd8_val, rd8_buf, wr8_buf, may_read,
            may_write (by omega : 20 ≤ cp + 2) hrec hopt, InOption,
            stays_stamp hcp hrec hopt hlong, Buf.set8_same, stays_pure, and_true,
            toNat_add_four (by omega : (b (cp + 2)).toNat + 8 ≤ 255)]
          omega
  · simp only [hprespec, if_false, stays_pure]

/-! ## Sound rounds -/

/-- The option at `cp` is handled within its place. -/
def OptSound (r : Router) (dst : UInt32) (cp cnt : Nat) (b : Buf) : Prop :=
  if b cp = ipoptLsrr ∨ b cp = ipoptSsrr then SourceRouteSound r (b cp) cp cnt b
  else if b cp = ipoptRr then RecordRouteSound r cp cnt b
  else if b cp = ipoptTs then TimestampSound r dst cp b
  else True

/-- The option has its length octet in the header; a length that will not do ends the loop, and
otherwise the option is handled within its place. -/
def Round.Sound (r : Router) (dst : UInt32) (round : Round) : Prop :=
  let b := round.buf
  let cp := round.cp
  let cnt := round.cnt
  b cp = ipoptEol ∨ b cp = ipoptNop ∨
    2 ≤ cnt ∧ ((b (cp + 1)).toNat = 0 ∨ cnt < (b (cp + 1)).toNat ∨ OptSound r dst cp cnt b)

instance (r : Router) (dst : UInt32) (cp : Nat) (b : Buf) :
    Decidable (TimestampSound r dst cp b) :=
  have : ∀ ptr len, Decidable (∀ ia ∈ r.ifaofIfpforaddr dst,
      3 ≤ ptr ∧ (ptr = 3 → 3 ≤ ((ia >>> 24).toUInt8 + 4).toNat ∧
        ((ia >>> 24).toUInt8 + 4).toNat + 3 ≤ len)) :=
    fun _ _ => Option.decidableForallMem _
  inferInstanceAs (Decidable (_ ∨ _ ∨ (_ ∧ (_ → _ → _))))

instance (r : Router) (dst : UInt32) (cp cnt : Nat) (b : Buf) :
    Decidable (OptSound r dst cp cnt b) :=
  inferInstanceAs (Decidable (ite _ (_ ∧ _) (ite _ (_ ∧ _) (ite _ (TimestampSound ..) True))))

instance (r : Router) (dst : UInt32) (round : Round) : Decidable (round.Sound r dst) :=
  inferInstanceAs (Decidable (_ ∨ _ ∨ _))

theorem stays_switch (hcp : 20 ≤ cp) (hall : cp + cnt = hlen) (hfit : (b (cp + 1)).toNat ≤ cnt)
    (hcnt : 2 ≤ cnt) :
    Stays (May hlen b cp) (optSwitchT r dst (b cp) cp (b (cp + 1)).toNat forward s) b ↔
      OptSound r dst cp cnt b := by
  rw [optSwitchT, OptSound]
  by_cases hroute : b cp = ipoptLsrr ∨ b cp = ipoptSsrr
  · rw [if_pos hroute, if_pos hroute]
    exact stays_sourceRoute hcp (hroute.imp id .inl) hall hfit
  rw [if_neg hroute, if_neg hroute]
  by_cases hrr : b cp = ipoptRr
  · rw [if_pos hrr, if_pos hrr]
    exact stays_recordRoute hcp (.inr (.inr (.inl hrr))) hall hfit
  rw [if_neg hrr, if_neg hrr]
  by_cases hts : b cp = ipoptTs
  · rw [if_pos hts, if_pos hts]
    exact stays_timestamp hcp (.inr (.inr (.inr hts))) hall hfit hcnt
  · rw [if_neg hts, if_neg hts]
    exact stays_pure _

/-- What a round touches is what it may exactly when the round is sound. -/
theorem Round.Of.stays_iff {round : Round} (h : round.Of r dst hlen) :
    (∀ t ∈ round.log, May hlen round.buf round.cp t) ↔ round.Sound r dst := by
  obtain ⟨⟨forward, s, hlog⟩, hcp, hcnt, hall⟩ := h
  obtain ⟨b, cp, cnt, log⟩ := round
  dsimp only at hlog hcp hcnt hall
  subst hlog
  rw [Round.Sound]
  dsimp only
  have hfirst : May hlen b cp (.read cp) := by
    rw [may_read]
    omega
  by_cases heol : b cp = ipoptEol
  · rw [optRoundT_eol heol]
    simp only [List.forall_mem_singleton, hfirst, heol, true_or]
  by_cases hnop : b cp = ipoptNop
  · rw [optRoundT_nop hnop]
    simp only [List.forall_mem_singleton, hfirst, hnop, true_or, or_true]
  have hlength : May hlen b cp (.read (cp + 1)) ↔ 2 ≤ cnt := by
    rw [may_read]
    omega
  simp only [heol, hnop, false_or]
  by_cases hbad : (b (cp + 1)).toNat = 0 ∨ cnt < (b (cp + 1)).toNat
  · rw [optRoundT_bad heol hnop hbad, ← or_assoc]
    simp only [List.forall_mem_cons, hfirst, hlength, true_and, hbad, true_or, and_true,
      List.not_mem_nil, false_implies, implies_true]
  · rw [optRoundT_opt heol hnop hbad, ← or_assoc]
    simp only [hbad, false_or, List.forall_mem_append, List.forall_mem_cons, hfirst, hlength,
      true_and, List.not_mem_nil, false_implies, implies_true, and_true]
    refine and_congr_right ?_
    intro htwo
    exact stays_switch hcp hall (by omega) htwo

/-! ## The run -/

/-- Everything is touched in its place: before the loop and behind it the header is read, at `bad`
`ip_len` is written, and the rounds have their options. -/
structure DooptionsRun.Stays (hlen : Nat) (run : DooptionsRun) : Prop where
  before : ∀ t ∈ run.before, ∃ a, t = .read a ∧ a < hlen
  rounds : ∀ round ∈ run.rounds, ∀ t ∈ round.log, May hlen round.buf round.cp t
  behind : ∀ t ∈ run.behind, ∃ a, a < hlen ∧
    (t = .read a ∨ t = .write a ∧ ipLenAt ≤ a ∧ a < ipLenAt + 2)

theorem stays_bad (h : 4 ≤ hlen) (b : Buf) :
    Traced.Stays (fun t => ∃ a, a < hlen ∧
      (t = .read a ∨ t = .write a ∧ ipLenAt ≤ a ∧ a < ipLenAt + 2)) badT b := by
  simp only [badT, stays_bind, stays_rd8, stays_wr8, ipLenAt]
  exact ⟨⟨0, by omega, .inl rfl⟩, ⟨2, by omega, .inl rfl⟩, ⟨3, by omega, .inl rfl⟩,
    ⟨2, by omega, .inr ⟨rfl, by decide⟩⟩, ⟨3, by omega, .inr ⟨rfl, by decide⟩⟩⟩

/-- `ip_dooptions` ends, after at most as many rounds as there are octets of options; and it touches
what it should exactly when all its rounds are sound. -/
theorem ip_dooptions_stays_iff (r : Router) (s : SrcRoute) (b : Buf) (h : 20 ≤ ipHlen b) :
    ((ipDooptionsT r s b).exit.onto (ipDooptionsT r s b).buf).dooptions = ipDooptions r b ∧
      (∀ fuel, ipHlen b - 20 ≤ fuel →
        dooptionsLoopT r (b.u32 ipDstAt) fuel 20 (ipHlen b - 20) false s b = optionsRun r s b) ∧
      ((ipDooptionsT r s b).Stays (ipHlen b) ↔
        ∀ round ∈ (ipDooptionsT r s b).rounds, round.Sound r (b.u32 ipDstAt)) := by
  refine ⟨ipDooptionsT_onto r s b, fun fuel hfuel => ?_, ?_⟩
  · exact dooptionsLoopT_fuel r _ hfuel (Nat.le_refl _) ..
  have hof : ∀ round ∈ (ipDooptionsT r s b).rounds, round.Of r (b.u32 ipDstAt) (ipHlen b) := by
    rw [ipDooptionsT_rounds]
    exact rounds_of r _ (Nat.le_refl 20) (by omega)
  constructor
  · intro hstays round hround
    exact (hof round hround).stays_iff.mp (hstays.rounds round hround)
  · intro hsound
    refine ⟨?_, fun round hround => (hof round hround).stays_iff.mpr (hsound round hround), ?_⟩
    · have hbefore : (ipDooptionsT r s b).before =
          ((rd32 ipDstAt).run b).log ++ ((rd8 0).run b).log := by
        rw [ipDooptionsT_eq, LoopRun.leave]
        cases (optionsRun r s b).exit <;> rfl
      rw [hbefore]
      refine List.forall_mem_append.mpr ⟨(stays_rd32 ipDstAt).mpr fun i hi => ⟨_, rfl, ?_⟩,
        (stays_rd8 0).mpr ⟨0, rfl, by omega⟩⟩
      rw [ipDstAt]
      omega
    · rw [ipDooptionsT_eq, LoopRun.leave]
      cases (optionsRun r s b).exit with
      | next _ _ => exact fun _ ht => absurd ht List.not_mem_nil
      | bad _ _ => exact stays_bad (by omega) _

/-- A router that knows every address. -/
def anyRouter : Router where
  ifaIfwithaddr a := some a
  ifaIfwithdstaddr a := some a
  ifaIfwithnet a := some a
  ifaofIfpforaddr a := some a
  ipRtaddr a := some a
  iptime := 0

/-- A header without its options. -/
def fixedHeader (hl : UInt8) : List UInt8 :=
  [0x40 + hl, 0, 0, 40, 0, 0, 0, 0, 64, 1, 0, 0, 10, 0, 0, 1, 10, 0, 0, 2]

theorem ip_dooptions_stays_loose_route :
    (ipDooptionsT anyRouter ⟨0, fun _ => 0⟩
      (Buf.of (fixedHeader 7 ++ [131, 7, 4, 10, 0, 0, 3, 0]))).Stays 28 := by
  have h := (ip_dooptions_stays_iff anyRouter ⟨0, fun _ => 0⟩
    (Buf.of (fixedHeader 7 ++ [131, 7, 4, 10, 0, 0, 3, 0])) (by decide)).2.2
  exact h.mpr (by decide +kernel)

/-- An option without a length has `ip_len` written, at octet 2; and a source route of three octets
whose pointer is 8 is given an address behind its header of 24 octets. -/
theorem ip_dooptions_writes_elsewhere :
    Touch.write 2 ∈ (ipDooptionsT anyRouter ⟨0, fun _ => 0⟩
        (Buf.of (fixedHeader 6 ++ [130, 0, 0, 0]))).behind ∧
      ∃ round ∈ (ipDooptionsT anyRouter ⟨0, fun _ => 0⟩
        (Buf.of (fixedHeader 6 ++ [131, 3, 8, 0]))).rounds, Touch.write 27 ∈ round.log := by
  decide +kernel

end VxWorks.Netinet
