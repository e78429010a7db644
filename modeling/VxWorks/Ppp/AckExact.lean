import Mathlib.Tactic.Common
import VxWorks.Ppp.ReqRecorded
import VxWorks.Ppp.Session

/-!
# The Ack of a request (`lcp.c`, `ipcp.c`)

A Configure-Ack has to repeat the options of the request it answers. What we sent is not
kept, though: `ackci` makes the options up again from `gotoptions` and compares. So an Ack
that repeats them is accepted as long as `gotoptions` says what it said when the request
went out. In LCP it does. In IPCP a request of the peer's that comes in between may change
our address, when it has the old option with both addresses and we go along with the
peer's idea of ours. From then on the Ack we are waiting for is one of another request.
-/

namespace VxWorks.Ppp

open VxWorks.Lib

/-! ## An option that is compared is the one that would be sent -/

section

variable {α : Type} [DecidableEq α] {neg : Bool} {ci : Codec α} {val : α} {p rest : List UInt8}

theorem ackci_eq_some_iff : ackci neg ci val p = some rest ↔ p = addci neg ci val ++ rest := by
  unfold ackci addci
  cases neg with
  | false => simp
  | true =>
      constructor
      · intro h
        cases hget : ci.get p with
        | none => simp [hget] at h
        | some r =>
            obtain ⟨v, q⟩ := r
            simp only [if_true, hget] at h
            split_ifs at h with hv
            rw [ci.put_get hget, hv, Option.some.inj h]
            rfl
      · rintro rfl
        simp [ci.get_put]

theorem ackci_bind_iff {f : List UInt8 → Option (List UInt8)} {q : List UInt8} :
    (ackci neg ci val p).bind f = some q ↔
      ∃ rest, p = addci neg ci val ++ rest ∧ f rest = some q := by
  rw [Option.bind_eq_some_iff]
  simp only [ackci_eq_some_iff]

end

theorem length_addci {α : Type} {neg : Bool} {ci : Codec α} {val : α} {cilen : UInt8}
    (h : ∀ v, (ci.put v).length = cilen.toNat) :
    ((addci neg ci val).length : Int) = lenci neg cilen := by
  cases neg with
  | false => rfl
  | true => simp [addci, lenci, h]

/-! ## LCP -/

theorem lcpAckci_iff (go : LcpOptions) (p : List UInt8) :
    lcpAckci go p = true ↔ p = lcpAddci go := by
  rw [lcpAckci, lcpAddci]
  rw [beq_iff_eq]
  simp only [Option.bind_eq_bind, ackci_bind_iff, ackci_eq_some_iff, List.append_nil]
  constructor
  · rintro ⟨_, rfl, _, rfl, _, rfl, _, rfl, _, rfl, _, rfl, _, rfl, rfl⟩
    simp only [List.append_assoc]
  · rintro rfl
    simp only [List.append_assoc]
    exact ⟨_, rfl, _, rfl, _, rfl, _, rfl, _, rfl, _, rfl, _, rfl, rfl⟩

/-- `lcp_addci` writes as much as `lcp_cilen` says. -/
theorem length_lcpAddci (go : LcpOptions) : ((lcpAddci go).length : Int) = lcpCilen go := by
  simp only [lcpAddci, lcpCilen, List.length_append, Nat.cast_add]
  iterate 7 refine congrArg₂ (· + ·) ?_ (length_addci fun _ => rfl)
  exact length_addci fun _ => rfl

/-- The options as `fsm_sconfreq` sends them for LCP. -/
def lcpSconfreq (o : Lcp) : List UInt8 :=
  let cilen := min (lcpCilen o.got) (o.peerMru - headerlen)
  ((lcpAddci o.got).take cilen.toNat).take (o.peerMru - headerlen).toNat

/-- What is left after the peer's requests, each with whether to reject what we disagree
with. -/
def lcpAfter (magic : Nat → UInt32) (o : Lcp) (reqs : List (List UInt8 × Bool)) : Lcp :=
  run (fun o req => (lcpReqci magic o req.1 req.2).2.2) o reqs

theorem lcpAfter_got (magic : Nat → UInt32) (o : Lcp) (reqs : List (List UInt8 × Bool)) :
    (lcpAfter magic o reqs).got = o.got := by
  induction reqs generalizing o with
  | nil => rfl
  | cons req reqs ih => exact ih _

/-- A string is accepted if and only if it is the one that was sent, when what would be
sent now is what was sent. -/
theorem forall_eq_iff {now sent : List UInt8} : (∀ p, p = now ↔ p = sent) ↔ now = sent :=
  ⟨fun h => (h now).mp rfl, fun h p => by rw [h]⟩

/-- The request is complete if the peer's MRU has room for it. -/
theorem lcpSconfreq_eq_iff (o : Lcp) :
    lcpAddci o.got = lcpSconfreq o ↔ lcpCilen o.got ≤ max 0 (o.peerMru - headerlen) := by
  have hlen := length_lcpAddci o.got
  rw [lcpSconfreq]
  rw [eq_comm, List.take_take, List.take_eq_self_iff]
  omega

/-! ## IPCP -/

/-- The options that `gotoptions` stands for. -/
def ownOctets (go : IpcpOptions) : List UInt8 :=
  (if go.negAddr then addrOctets go else []) ++ (if go.negVj then vjOctets go else [])

theorem ipcpAckci_iff (go : IpcpOptions) (p : List UInt8) :
    ipcpAckci go p = true ↔ p = ownOctets go := by
  have hown : ownOctets go =
      addci (go.negAddr && go.oldAddrs) (ciTwoAddrs ciAddrs) (go.ouraddr, go.hisaddr) ++
      (addci (go.negAddr && !go.oldAddrs) (ciOneAddr ciAddr) go.ouraddr ++
      (addci (go.negVj && go.oldVj) ciOldVj go.vjProtocol ++
      addci (go.negVj && !go.oldVj) ciVj (go.vjProtocol, go.maxslotindex, go.cflag))) := by
    unfold ownOctets addrOctets vjOctets addci
    cases go.negAddr <;> cases go.oldAddrs <;> cases go.negVj <;> cases go.oldVj <;> simp
  rw [hown, ipcpAckci, beq_iff_eq]
  simp only [Option.bind_eq_bind, ackci_bind_iff, ackci_eq_some_iff, List.append_nil]
  constructor
  · rintro ⟨_, rfl, _, rfl, _, rfl, rfl⟩
    rfl
  · rintro rfl
    exact ⟨_, rfl, _, rfl, _, rfl, rfl⟩

theorem length_addrOctets (go : IpcpOptions) :
    (addrOctets go).length = if go.oldAddrs then 10 else 6 := by
  cases h : go.oldAddrs <;> simp [addrOctets, h] <;> rfl

theorem length_vjOctets (go : IpcpOptions) :
    (vjOctets go).length = if go.oldVj then 4 else 6 := by
  cases h : go.oldVj <;> simp [vjOctets, h] <;> rfl

theorem ipcpCilen_eq (go : IpcpOptions) :
    ipcpCilen go = (if go.negAddr then if go.oldAddrs then 10 else 6 else 0) +
      (if go.negVj then if go.oldVj then 4 else 6 else 0) := by
  rw [ipcpCilen, lenci]
  cases go.negAddr <;> cases go.oldAddrs <;> cases go.negVj <;> cases go.oldVj <;> rfl

theorem length_ownOctets (go : IpcpOptions) : ((ownOctets go).length : Int) = ipcpCilen go := by
  rw [ipcpCilen_eq, ownOctets, List.length_append, Nat.cast_add]
  have haddr := length_addrOctets go
  have hvj := length_vjOctets go
  congr 1
  · split_ifs at haddr ⊢ <;> simp [haddr]
  · split_ifs at hvj ⊢ <;> simp [hvj]

/-- The fallback to the old forms is about options that are not negotiated so far. -/
theorem ipcpFallback_cases (o : Ipcp) : ∃ go,
    (go = o.got ∨ o.got.negAddr = false ∧ go = { o.got with negAddr := true, oldAddrs := true }) ∧
    (ipcpFallback o = go ∨ o.got.negVj = false ∧
      ∃ old proto,
        ipcpFallback o = { go with negVj := true, oldVj := old, vjProtocol := proto }) := by
  let go := if o.want.negAddr && !o.got.negAddr && !o.got.oldAddrs then
    { o.got with negAddr := true, oldAddrs := true } else o.got
  have hgo : go = o.got ∨
      o.got.negAddr = false ∧ go = { o.got with negAddr := true, oldAddrs := true } := by
    by_cases h : (o.want.negAddr && !o.got.negAddr && !o.got.oldAddrs) = true
    · have hneg : o.got.negAddr = false := by
        simp only [Bool.and_eq_true, Bool.not_eq_true'] at h
        exact h.1.2
      exact .inr ⟨hneg, if_pos h⟩
    · exact .inl (if_neg h)
  have hvj : go.negVj = o.got.negVj := by rcases hgo with h | ⟨_, h⟩ <;> rw [h]
  refine ⟨go, hgo, ?_⟩
  by_cases h : (o.want.negVj && !go.negVj && !go.oldVj) = true
  · have hneg : o.got.negVj = false := by
      simp only [Bool.and_eq_true, Bool.not_eq_true'] at h
      exact hvj.symm.trans h.1.2
    have heq : ipcpFallback o = if o.cisReceived = 0 then { go with negVj := true }
        else if o.his.negVj && o.his.oldVj then
          { go with negVj := true, oldVj := true, vjProtocol := o.his.vjProtocol }
        else go := if_pos h
    rw [heq]
    split_ifs
    · exact .inr ⟨hneg, _, _, rfl⟩
    · exact .inr ⟨hneg, _, _, rfl⟩
    · exact .inl rfl
  · exact .inl (if_neg h)

theorem ipcpFallback_ouraddr (o : Ipcp) : (ipcpFallback o).ouraddr = o.got.ouraddr := by
  obtain ⟨go, haddr, hvj⟩ := ipcpFallback_cases o
  rcases hvj with h | ⟨_, _, _, h⟩ <;> rcases haddr with rfl | ⟨_, rfl⟩ <;> rw [h]

theorem ipcpFallback_addr (o : Ipcp) :
    (o.got.negAddr = true →
      (ipcpFallback o).negAddr = true ∧ addrOctets (ipcpFallback o) = addrOctets o.got) ∧
    (o.got.negAddr = false →
      (ipcpFallback o).negAddr = true → (ipcpFallback o).oldAddrs = true) := by
  obtain ⟨go, haddr, hvj⟩ := ipcpFallback_cases o
  have hsame : (ipcpFallback o).negAddr = go.negAddr ∧ (ipcpFallback o).oldAddrs = go.oldAddrs ∧
      addrOctets (ipcpFallback o) = addrOctets go := by
    rcases hvj with h | ⟨_, _, _, h⟩ <;> rw [h] <;> exact ⟨rfl, rfl, rfl⟩
  rw [hsame.1, hsame.2.1, hsame.2.2]
  rcases haddr with rfl | ⟨hneg, rfl⟩
  · exact ⟨fun h => ⟨h, rfl⟩, fun h h' => absurd (h.symm.trans h') (by decide)⟩
  · exact ⟨fun h => absurd (hneg.symm.trans h) (by decide), fun _ _ => rfl⟩

theorem ipcpFallback_vj (o : Ipcp) (hneg : o.got.negVj = true) :
    (ipcpFallback o).negVj = true ∧ vjOctets (ipcpFallback o) = vjOctets o.got := by
  obtain ⟨go, haddr, hvj⟩ := ipcpFallback_cases o
  rcases hvj with h | ⟨hnot, _⟩
  · rcases haddr with rfl | ⟨_, rfl⟩ <;> rw [h] <;> exact ⟨hneg, rfl⟩
  · exact absurd (hneg.symm.trans hnot) (by decide)

/-- `gotoptions` after a request that was sent in full. -/
def ipcpAsked (o : Ipcp) : IpcpOptions :=
  { ipcpFallback o with negAddr := o.got.negAddr, negVj := o.got.negVj }

theorem ownOctets_asked (o : Ipcp) : ownOctets (ipcpAsked o) = ownOctets o.got := by
  refine congrArg₂ (· ++ ·) ?_ ?_
  · show (if o.got.negAddr then addrOctets (ipcpFallback o) else []) = _
    cases hneg : o.got.negAddr with
    | true => exact ((ipcpFallback_addr o).1 hneg).2
    | false => rfl
  · show (if o.got.negVj then vjOctets (ipcpFallback o) else []) = _
    cases hneg : o.got.negVj with
    | true => exact (ipcpFallback_vj o hneg).2
    | false => rfl

/-- With the room that `ipcp_cilen` has computed, what is sent is what was computed: an
option that the fallback adds does not fit. -/
theorem ipcpAddci_eq {o : Ipcp} {room : Int} (h : ipcpCilen o.got ≤ max 0 room) :
    ipcpAddci o (min (ipcpCilen o.got) room) =
      ({ o with got := ipcpAsked o }, ownOctets o.got) := by
  have haddrlen := length_addrOctets o.got
  have hvjlen := length_vjOctets o.got
  have hcilen := ipcpCilen_eq o.got
  have haddr : ((ipcpFallback o).negAddr && decide
      (((addrOctets (ipcpFallback o)).length : Int) ≤ min (ipcpCilen o.got) room)) =
      o.got.negAddr := by
    cases hneg : o.got.negAddr with
    | true =>
        obtain ⟨hkept, hsame⟩ := (ipcpFallback_addr o).1 hneg
        rw [hkept, hsame, Bool.true_and, decide_eq_true_eq]
        simp only [hneg, if_true] at hcilen
        split_ifs at * <;> omega
    | false =>
        cases hnew : (ipcpFallback o).negAddr with
        | false => rfl
        | true =>
            -- the old form has ten octets, and compression at most six
            have hten := length_addrOctets (ipcpFallback o)
            rw [(ipcpFallback_addr o).2 hneg hnew, if_pos rfl] at hten
            rw [Bool.true_and, decide_eq_false_iff_not]
            simp only [hneg, Bool.false_eq_true, if_false] at hcilen
            split_ifs at hcilen <;> omega
  have hvj : ((ipcpFallback o).negVj && decide (((vjOctets (ipcpFallback o)).length : Int) ≤
      if o.got.negAddr then min (ipcpCilen o.got) room - (addrOctets (ipcpFallback o)).length
      else min (ipcpCilen o.got) room)) = o.got.negVj := by
    have hleft : (if o.got.negAddr then
        min (ipcpCilen o.got) room - ((addrOctets (ipcpFallback o)).length : Int)
        else min (ipcpCilen o.got) room) = min (ipcpCilen o.got) room -
          if o.got.negAddr then if o.got.oldAddrs then 10 else 6 else 0 := by
      cases hneg : o.got.negAddr with
      | true =>
          rw [((ipcpFallback_addr o).1 hneg).2, haddrlen, if_pos rfl, if_pos rfl]
          split_ifs <;> rfl
      | false => simp
    rw [hleft]
    cases hneg : o.got.negVj with
    | true =>
        obtain ⟨hkept, hsame⟩ := ipcpFallback_vj o hneg
        rw [hkept, hsame, Bool.true_and, decide_eq_true_eq]
        simp only [hneg, if_true] at hcilen
        split_ifs at * <;> omega
    | false =>
        have hfour := length_vjOctets (ipcpFallback o)
        simp only [hneg, Bool.false_eq_true, if_false] at hcilen
        rw [Bool.and_eq_false_iff, decide_eq_false_iff_not]
        right
        split_ifs at hfour <;> omega
  rw [← ownOctets_asked]
  simp only [ipcpAddci, haddr, hvj]
  rfl

theorem length_if_fits (neg : Bool) (octets : List UInt8) (room : Int) :
    ((if neg && decide ((octets.length : Int) ≤ room) then octets else []).length : Int) ≤
      max 0 room := by
  cases h : neg && decide ((octets.length : Int) ≤ room) with
  | false => simp
  | true =>
      rw [Bool.and_eq_true, decide_eq_true_eq] at h
      rw [if_pos rfl]
      omega

/-- What is sent fits into the room there is. -/
theorem length_ipcpAddci_le (o : Ipcp) (room : Int) :
    ((ipcpAddci o room).2.length : Int) ≤ max 0 room := by
  simp only [ipcpAddci, List.length_append, Nat.cast_add]
  generalize ipcpFallback o = go
  cases haddr : go.negAddr && decide (((addrOctets go).length : Int) ≤ room) with
  | false => simpa using length_if_fits go.negVj (vjOctets go) room
  | true =>
      have hvj := length_if_fits go.negVj (vjOctets go) (room - (addrOctets go).length)
      rw [Bool.and_eq_true, decide_eq_true_eq] at haddr
      simp only [if_true]
      omega

/-- The options as `fsm_sconfreq` sends them for IPCP, and what is left behind. -/
def ipcpSconfreq (peerMru : Int) (o : Ipcp) : Ipcp × List UInt8 :=
  let r := ipcpAddci o (min (ipcpCilen o.got) (peerMru - headerlen))
  (r.1, r.2.take (peerMru - headerlen).toNat)

/-- What is left after the peer's requests. -/
def ipcpAfter (o : Ipcp) (reqs : List (List UInt8 × Bool)) : Ipcp :=
  run (fun o req => (ipcpReqci o req.1 req.2).2.2) o reqs

/-- The address an option makes us take over as ours. -/
def ReqCi.takesOver (wo ao : IpcpOptions) : ReqCi → Option UInt32
  | .opt citype cilen body => ipcpTakesOver wo ao citype cilen body
  | .tail _ => none

/-- The address that we have taken over in the end, if there is one. -/
def ipcpTakenOver (wo ao : IpcpOptions) (reqs : List (List UInt8 × Bool)) : Option UInt32 :=
  lastOf (ReqCi.takesOver wo ao) (reqs.flatMap fun req => reqCis req.1.length req.1)

section

variable {wo ao : IpcpOptions} {reject : Bool}

theorem ipcpReqDispose_go (orc : ConfCode) (cip : List UInt8) (r : IpcpReq) :
    (ipcpReqDispose reject orc cip r).go = r.go := by
  unfold ipcpReqDispose
  split <;> rfl

theorem ipcpReqRound_go {r : IpcpReq} {ci : ReqCi} (hwf : ci.WellFormed) :
    (ipcpReqRound wo ao reject r ci).go =
      { r.go with ouraddr := (ci.takesOver wo ao).getD r.go.ouraddr } := by
  cases ci with
  | tail octets => exact ipcpReqDispose_go _ _ _
  | opt citype cilen body =>
      rw [ipcpReqRound_eq hwf]
      cases hrefuse : ipcpRefuses ao citype cilen body with
      | true =>
          have hnone : ipcpTakesOver wo ao citype cilen body = none := by
            refine if_neg ?_
            rintro ⟨rfl, hneg, rfl, _⟩
            simp [ipcpRefuses, hneg] at hrefuse
          rw [if_pos rfl, ipcpReqDispose_go, ReqCi.takesOver, hnone]
          rfl
      | false =>
          rw [if_neg (by simp), ipcpReqDispose_go, ReqCi.takesOver]
          cases ipcpTakesOver wo ao citype cilen body <;> rfl

theorem ipcpReqFold_go {cis : List ReqCi} {r : IpcpReq} (hwf : ∀ ci ∈ cis, ci.WellFormed) :
    (cis.foldl (ipcpReqRound wo ao reject) r).go =
      { r.go with ouraddr := (lastOf (ReqCi.takesOver wo ao) cis).getD r.go.ouraddr } := by
  induction cis using List.reverseRecOn with
  | nil => rfl
  | append_singleton cis ci ih =>
      rw [List.foldl_concat, ipcpReqRound_go (hwf ci (by simp)),
        ih fun ci' h => hwf ci' (by simp [h]), lastOf_concat]

end

/-- One request: what we want stays, but for the question for the peer's address, and so
does what we have got, but for our address. -/
theorem ipcpReqci_own (o : Ipcp) (inp : List UInt8) (reject : Bool) :
    (∃ b, (ipcpReqci o inp reject).2.2.want = { o.want with reqAddr := b }) ∧
      (ipcpReqci o inp reject).2.2.allow = o.allow ∧
      (ipcpReqci o inp reject).2.2.got = { o.got with
        ouraddr := (lastOf (ReqCi.takesOver o.want o.allow) (reqCis inp.length inp)).getD
          o.got.ouraddr } := by
  have hgo := @ipcpReqFold_go o.want o.allow reject (reqCis inp.length inp)
    { go := o.got, ho := IpcpOptions.zero, out := [], rc := .ack } reqCis_wellFormed
  simp only [ipcpReqci]
  rw [← hgo]
  rw [ipcpReqAsk]
  split_ifs
  · exact ⟨⟨false, rfl⟩, trivial, rfl⟩
  · exact ⟨⟨o.want.reqAddr, rfl⟩, trivial, rfl⟩
  · exact ⟨⟨o.want.reqAddr, rfl⟩, trivial, rfl⟩

theorem ipcpAfter_got (o : Ipcp) (reqs : List (List UInt8 × Bool)) :
    (ipcpAfter o reqs).got = { o.got with
      ouraddr := (ipcpTakenOver o.want o.allow reqs).getD o.got.ouraddr } := by
  induction reqs generalizing o with
  | nil => rfl
  | cons req reqs ih =>
      obtain ⟨⟨b, hwant⟩, hallow, hgot⟩ := ipcpReqci_own o req.1 req.2
      -- whether we ask for the peer's address has no part in what we take over
      have hwo : ReqCi.takesOver { o.want with reqAddr := b } o.allow =
          ReqCi.takesOver o.want o.allow := rfl
      show (ipcpAfter (ipcpReqci o req.1 req.2).2.2 reqs).got = _
      rw [ih, hgot, hwant, hallow, ipcpTakenOver, ipcpTakenOver, List.flatMap_cons, lastOf_append,
        hwo]

/-- Another address of ours is another request, if the address is in it. -/
theorem ownOctets_ouraddr_iff (go : IpcpOptions) (addr : UInt32) :
    ownOctets { go with ouraddr := addr } = ownOctets go ↔
      (go.negAddr = true → addr = go.ouraddr) := by
  have haddr : addrOctets { go with ouraddr := addr } = addrOctets go ↔ addr = go.ouraddr := by
    unfold addrOctets
    cases go.oldAddrs with
    | true => simp [(Codec.put_injective _).eq_iff]
    | false => simp [(Codec.put_injective _).eq_iff]
  show (if go.negAddr = true then addrOctets { go with ouraddr := addr } else []) ++
      (if go.negVj = true then vjOctets go else []) = ownOctets go ↔ _
  rw [ownOctets, List.append_left_inj]
  by_cases hneg : go.negAddr = true
  · rw [if_pos hneg, if_pos hneg, haddr]
    exact ⟨fun h _ => h, fun h => h hneg⟩
  · rw [if_neg hneg, if_neg hneg]
    exact ⟨fun _ h => absurd h hneg, fun _ => rfl⟩

theorem getD_eq_iff {α : Type} {a : Option α} {d : α} : a.getD d = d ↔ ∀ v, a = some v → v = d := by
  cases a <;> simp

/-- A request that is sent in full, and the Acks that are accepted for it. -/
theorem ipcp_ack_exact_iff {peerMru : Int} {o : Ipcp} (reqs : List (List UInt8 × Bool))
    (h : ipcpCilen o.got ≤ max 0 (peerMru - headerlen)) :
    (∀ p, ipcpAckci (ipcpAfter (ipcpSconfreq peerMru o).1 reqs).got p = true ↔
      p = (ipcpSconfreq peerMru o).2) ↔
      (o.got.negAddr = true → ∀ addr, ipcpTakenOver o.want o.allow reqs = some addr →
        addr = o.got.ouraddr) := by
  have hfits : (ownOctets o.got).length ≤ (peerMru - headerlen).toNat := by
    have hle := length_ipcpAddci_le o (min (ipcpCilen o.got) (peerMru - headerlen))
    rw [ipcpAddci_eq h] at hle
    dsimp only at hle
    omega
  simp only [ipcpAckci_iff, forall_eq_iff, ipcpAfter_got, ipcpSconfreq, ipcpAddci_eq h]
  rw [List.take_of_length_le hfits, ← ownOctets_asked, ownOctets_ouraddr_iff]
  simp only [getD_eq_iff, ipcpAsked, ipcpFallback_ouraddr]

/-! ## In a session -/

section

variable {σ : Type} (a : Stack σ) (s : Session σ)

/-- The two requests are those of `fsm_sconfreq`, as `fsm_sdata` cuts them. -/
theorem sconfreqCi_lcp :
    (sconfreqCi a.lcpPort a.lcpLower s).1 = s ∧
      (sconfreqCi a.lcpPort a.lcpLower s).2.take (s.link.peerMru - headerlen).toNat =
        lcpSconfreq s.link :=
  ⟨rfl, rfl⟩

theorem sconfreqCi_ipcp :
    (sconfreqCi a.ipcpPort Stack.ipcpLower s).1 =
        { s with net := (ipcpSconfreq s.link.peerMru s.net).1 } ∧
      (sconfreqCi a.ipcpPort Stack.ipcpLower s).2.take (s.link.peerMru - headerlen).toNat =
        (ipcpSconfreq s.link.peerMru s.net).2 :=
  ⟨rfl, rfl⟩

end

/-! ## Both -/

/-- The Acks that are accepted after a request was sent, whatever requests of the peer's
were answered since, are those that repeat it, and `cilen` is the length of what `addci`
writes. For LCP that is so if and only if the peer's MRU has room for the options, and for
IPCP if moreover no request has left us with an address of ours other than the one that
was sent. -/
theorem ack_exact_iff (magic : Nat → UInt32) (lcp : Lcp) (peerMru : Int) (o : Ipcp)
    (reqs : List (List UInt8 × Bool)) :
    (((∀ p, lcpAckci (lcpAfter magic lcp reqs).got p = true ↔ p = lcpSconfreq lcp) ∧
        ((lcpAddci lcp.got).length : Int) = lcpCilen lcp.got) ↔
      lcpCilen lcp.got ≤ max 0 (lcp.peerMru - headerlen)) ∧
    (((∀ p, ipcpAckci (ipcpAfter (ipcpSconfreq peerMru o).1 reqs).got p = true ↔
          p = (ipcpSconfreq peerMru o).2) ∧
        ((ipcpAddci o (min (ipcpCilen o.got) (peerMru - headerlen))).2.length : Int) =
          ipcpCilen o.got) ↔
      ipcpCilen o.got ≤ max 0 (peerMru - headerlen) ∧
        (o.got.negAddr = true → ∀ addr, ipcpTakenOver o.want o.allow reqs = some addr →
          addr = o.got.ouraddr)) := by
  constructor
  · simp only [lcpAckci_iff, lcpAfter_got, forall_eq_iff, length_lcpAddci, and_true]
    exact lcpSconfreq_eq_iff lcp
  · have hle := length_ipcpAddci_le o (min (ipcpCilen o.got) (peerMru - headerlen))
    constructor
    · rintro ⟨hack, hlen⟩
      have hroom : ipcpCilen o.got ≤ max 0 (peerMru - headerlen) := by omega
      exact ⟨hroom, (ipcp_ack_exact_iff reqs hroom).mp hack⟩
    · rintro ⟨hroom, hkept⟩
      refine ⟨(ipcp_ack_exact_iff reqs hroom).mpr hkept, ?_⟩
      rw [ipcpAddci_eq hroom]
      exact length_ownOctets o.got

/-- Our address is 10.0.0.9, and the peer may have another idea of it. While our request
is on its way, one of the peer's comes in that has 10.0.0.2 for us. The Ack of our own
request is not accepted any more. -/
theorem ack_refused :
    ¬ ∀ (o : Ipcp) (reqs : List (List UInt8 × Bool)) (p : List UInt8),
      ipcpAckci (ipcpAfter (ipcpSconfreq mtu o).1 reqs).got p = true ↔
        p = (ipcpSconfreq mtu o).2 := by
  intro h
  have hack := (h
    (ipcpResetci { ipcpInit with want :=
      { ipcpInit.want with ouraddr := 0x0a000009, acceptLocal := true } })
    [([1, 10, 10, 0, 0, 1, 10, 0, 0, 2], false)]
    [3, 6, 10, 0, 0, 9, 2, 6, 0, 45, 15, 1]).mpr (by decide +kernel)
  exact absurd hack (by decide +kernel)

/-! ## The room there is

The first condition is met in every session: the peer's MRU is 1500, or what `lcp_up` has
set it to, and that is the MRU of an option that was accepted. -/

theorem room_for_options {peerMru : Int} (h : minmru.toNat ≤ peerMru) (go : LcpOptions)
    (go' : IpcpOptions) :
    lcpCilen go ≤ max 0 (peerMru - headerlen) ∧ ipcpCilen go' ≤ max 0 (peerMru - headerlen) := by
  have hmin : (minmru.toNat : Int) = 128 := rfl
  have hhead : headerlen = 4 := rfl
  have hlenci (neg : Bool) (cilen : UInt8) : lenci neg cilen ≤ cilen.toNat := by
    cases neg <;> simp [lenci]
  have hlcp : lcpCilen go ≤ 4 + 6 + 5 + 4 + 8 + 6 + 2 + 2 := by
    rw [lcpCilen]
    iterate 7 refine add_le_add ?_ (hlenci _ _)
    exact hlenci _ _
  have hipcp : ipcpCilen go' ≤ 16 := by
    rw [ipcpCilen_eq]
    split_ifs <;> omega
  omega

theorem take_mru {go ao his : LcpOptions} {citype : UInt8} {body : List UInt8}
    (hdis : lcpDisagrees go ao citype body = false) (h : his.negMru = true → minmru ≤ his.mru) :
    (his.take citype body).negMru = true → minmru ≤ (his.take citype body).mru := by
  rw [LcpOptions.take]
  by_cases hmru : citype = ciMru
  · rw [if_pos hmru]
    intro _
    simpa [lcpDisagrees, hmru] using hdis
  · rw [if_neg hmru]
    split_ifs <;> exact h

/-- An MRU is recorded if it is not too small. -/
theorem lcpReqci_mru (magic : Nat → UInt32) (o : Lcp) (inp : List UInt8) (reject : Bool)
    (h : (lcpReqci magic o inp reject).2.2.his.negMru = true) :
    minmru ≤ (lcpReqci magic o inp reject).2.2.his.mru := by
  have hfold : ∀ (cis : List ReqCi) (r : LcpReq), (r.his.negMru = true → minmru ≤ r.his.mru) →
      (cis.foldl (lcpReqRound magic o.got o.allow reject) r).his.negMru = true →
        minmru ≤ (cis.foldl (lcpReqRound magic o.got o.allow reject) r).his.mru := by
    intro cis
    induction cis with
    | nil => exact fun r hr => hr
    | cons ci cis ih =>
        intro r hr
        refine ih _ ?_
        cases ci with
        | tail octets => exact hr
        | opt citype cilen body =>
            rw [lcpReqRound_his]
            split_ifs with hbad
            · exact hr
            · rw [Bool.not_eq_true, Bool.or_eq_false_iff] at hbad
              exact take_mru hbad.2 hr
  exact hfold (reqCis inp.length inp)
    { his := LcpOptions.zero, nak := [], rej := [], rc := .ack, drawn := o.drawn } nofun h

/-- The peer's MRU as `lcp_up` takes it over. -/
theorem lcpUpOptions_peerMru {o : Lcp} {low : Int} (hlow : low ≤ minmru.toNat)
    (h : low ≤ o.peerMru) (hhis : o.his.negMru = true → minmru ≤ o.his.mru) :
    low ≤ (Stack.lcpUpOptions o).peerMru := by
  show low ≤ if o.his.negMru then (o.his.mru.toNat : Int) else o.peerMru
  split_ifs with hneg
  · have hmru := UInt16.le_iff_toNat_le.mp (hhis hneg)
    omega
  · exact h

end VxWorks.Ppp
