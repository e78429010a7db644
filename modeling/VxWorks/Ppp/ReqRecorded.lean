import Mathlib.Tactic.Common
import VxWorks.Lib.Run
import VxWorks.Ppp.ReqBuffer

/-!
# What is recorded of a request that is acknowledged (`lcp.c`, `ipcp.c`)

A request that is acknowledged is a list of options each of which was accepted, and
`hisoptions` is what they leave behind one after the other, starting from zero. So an
option that occurs is recorded, and with the value of its last occurrence, if each
option records what it says. All do but two. A link quality option is accepted without a
trace, if it is allowed at all. And the slot-ID flag of the compression option is recorded
as `wo->cflag`, what we want, not what the peer has said.
-/

namespace VxWorks.Ppp

open VxWorks.Lib

attribute [ext] LcpOptions IpcpOptions

/-- The last of the values that `f` finds in the options. -/
def lastOf {α : Type} (f : ReqCi → Option α) (cis : List ReqCi) : Option α :=
  (cis.filterMap f).getLast?

theorem lastOf_append {α : Type} (f : ReqCi → Option α) (cis cis' : List ReqCi) (d : α) :
    (lastOf f (cis ++ cis')).getD d = (lastOf f cis').getD ((lastOf f cis).getD d) := by
  unfold lastOf
  rw [List.filterMap_append, List.getLast?_append, Option.getD_or]

theorem lastOf_concat {α : Type} (f : ReqCi → Option α) (cis : List ReqCi) (ci : ReqCi) (d : α) :
    (lastOf f (cis ++ [ci])).getD d = (f ci).getD ((lastOf f cis).getD d) := by
  rw [lastOf_append]
  cases hf : f ci <;> simp [lastOf, hf]

/-- The value of an option of type `t`. -/
def ReqCi.value {α : Type} (t : UInt8) (f : List UInt8 → α) : ReqCi → Option α
  | .opt citype _ body => if citype = t then some (f body) else none
  | .tail _ => none

def ReqCi.hasType (t : UInt8) : ReqCi → Bool
  | .opt citype _ _ => citype == t
  | .tail _ => false

/-! ## The link -/

/-- An option that asks for authentication by `proto`. -/
def ReqCi.asksFor (proto : UInt16) : ReqCi → Bool
  | .opt citype _ body => citype == ciAuthtype && shortAt body == proto
  | .tail _ => false

/-- The digest of an option that asks for CHAP. -/
def ReqCi.chapDigest : ReqCi → Option UInt8
  | .opt citype _ body =>
      if citype = ciAuthtype ∧ shortAt body = chapProto then some ((body.drop 2).headD 0) else none
  | .tail _ => none

/-- What a list of options says: a flag is set if and only if the option occurs, and the
value is that of its last occurrence. -/
def lcpSaid (cis : List ReqCi) : LcpOptions := { LcpOptions.zero with
  negMru := cis.any (ReqCi.hasType ciMru)
  mru := (lastOf (ReqCi.value ciMru shortAt) cis).getD 0
  negAsyncmap := cis.any (ReqCi.hasType ciAsyncmap)
  asyncmap := (lastOf (ReqCi.value ciAsyncmap longAt) cis).getD 0
  negUpap := cis.any (ReqCi.asksFor upapProto)
  negChap := cis.any (ReqCi.asksFor chapProto)
  chapMdtype := (lastOf ReqCi.chapDigest cis).getD 0
  negLqr := cis.any (ReqCi.hasType ciQuality)
  negMagicnumber := cis.any (ReqCi.hasType ciMagicnumber)
  magicnumber := (lastOf (ReqCi.value ciMagicnumber longAt) cis).getD 0
  negPcompression := cis.any (ReqCi.hasType ciPcompression)
  negAccompression := cis.any (ReqCi.hasType ciAccompression) }

def LcpOptions.takeCi (his : LcpOptions) : ReqCi → LcpOptions
  | .opt citype _ body => his.take citype body
  | .tail _ => his

/-- An option with a value we agree with. -/
def ReqCi.LcpAgreed (go ao : LcpOptions) : ReqCi → Prop
  | .opt citype _ body => lcpDisagrees go ao citype body = false
  | .tail _ => False

section

variable {magic : Nat → UInt32} {go ao : LcpOptions} {reject : Bool}

/-- A round that does not spoil the answer has accepted its option. -/
theorem lcpReqRound_ack {r : LcpReq} {ci : ReqCi}
    (h : (lcpReqRound magic go ao reject r ci).rc = .ack) :
    r.rc = .ack ∧ ci.LcpAgreed go ao ∧
      (lcpReqRound magic go ao reject r ci).his = r.his.takeCi ci := by
  cases ci with
  | tail octets => cases h
  | opt citype cilen body =>
      rw [lcpReqRound_eq] at h ⊢
      split_ifs at h with hrefuse hdis
      rw [if_neg hrefuse, if_neg hdis]
      exact ⟨h, by simpa [ReqCi.LcpAgreed] using hdis, rfl⟩

theorem lcpReqFold_ack {cis : List ReqCi} {r : LcpReq}
    (h : (cis.foldl (lcpReqRound magic go ao reject) r).rc = .ack) :
    r.rc = .ack ∧ (∀ ci ∈ cis, ci.LcpAgreed go ao) ∧
      (cis.foldl (lcpReqRound magic go ao reject) r).his = run LcpOptions.takeCi r.his cis := by
  induction cis generalizing r with
  | nil => exact ⟨h, by simp, rfl⟩
  | cons ci cis ih =>
      obtain ⟨hmid, hrest, hhis⟩ := ih h
      obtain ⟨hfirst, hagreed, htake⟩ := lcpReqRound_ack hmid
      refine ⟨hfirst, ?_, ?_⟩
      · intro ci' hci'
        rcases List.mem_cons.mp hci' with rfl | hmem
        · exact hagreed
        · exact hrest ci' hmem
      · rw [List.foldl_cons, run_cons, hhis, htake]

end

/-- What an option says, on top of what was said before it. -/
def LcpOptions.hear (said : LcpOptions) (ci : ReqCi) : LcpOptions := { said with
  negMru := said.negMru || ci.hasType ciMru
  mru := (ci.value ciMru shortAt).getD said.mru
  negAsyncmap := said.negAsyncmap || ci.hasType ciAsyncmap
  asyncmap := (ci.value ciAsyncmap longAt).getD said.asyncmap
  negUpap := said.negUpap || ci.asksFor upapProto
  negChap := said.negChap || ci.asksFor chapProto
  chapMdtype := ci.chapDigest.getD said.chapMdtype
  negLqr := said.negLqr || ci.hasType ciQuality
  negMagicnumber := said.negMagicnumber || ci.hasType ciMagicnumber
  magicnumber := (ci.value ciMagicnumber longAt).getD said.magicnumber
  negPcompression := said.negPcompression || ci.hasType ciPcompression
  negAccompression := said.negAccompression || ci.hasType ciAccompression }

theorem lcpSaid_concat (cis : List ReqCi) (ci : ReqCi) :
    lcpSaid (cis ++ [ci]) = (lcpSaid cis).hear ci := by
  simp only [lcpSaid, LcpOptions.hear, lastOf_concat, List.any_append, List.any_cons, List.any_nil,
    Bool.or_false]

/-- An option that is accepted is recorded as what it says, all but the link quality. -/
theorem takeCi_eq {go ao his : LcpOptions} {ci : ReqCi} (h : ci.LcpAgreed go ao) :
    his.takeCi ci = { his.hear ci with negLqr := his.negLqr } := by
  cases ci with
  | tail octets => exact h.elim
  | opt citype cilen body =>
      unfold LcpOptions.takeCi LcpOptions.take LcpOptions.hear ReqCi.hasType ReqCi.value
        ReqCi.asksFor ReqCi.chapDigest
      by_cases hmru : citype = ciMru
      · simp [hmru, ciMru, ciAsyncmap, ciAuthtype, ciMagicnumber, ciPcompression, ciAccompression]
      by_cases hasync : citype = ciAsyncmap
      · simp [hasync, ciMru, ciAsyncmap, ciAuthtype, ciMagicnumber, ciPcompression,
          ciAccompression]
      by_cases hauth : citype = ciAuthtype
      · have hchap : shortAt body ≠ upapProto → shortAt body = chapProto := by
          intro hupap
          by_contra hchap
          simp [ReqCi.LcpAgreed, lcpDisagrees, hauth, hupap, hchap, ciMru, ciAsyncmap,
            ciAuthtype] at h
        by_cases hupap : shortAt body = upapProto
        · simp [hauth, hupap, upapProto, chapProto, ciMru, ciAsyncmap, ciAuthtype, ciMagicnumber,
            ciPcompression, ciAccompression]
        · simp [hauth, hchap hupap, upapProto, chapProto, ciMru, ciAsyncmap, ciAuthtype,
            ciMagicnumber, ciPcompression, ciAccompression]
      · simp only [hmru, hasync, hauth, if_false, false_and, Bool.or_false,
          beq_eq_false_iff_ne.mpr hmru, beq_eq_false_iff_ne.mpr hasync,
          beq_eq_false_iff_ne.mpr hauth, Bool.false_and, Option.getD_none]
        by_cases hmagic : citype = ciMagicnumber
        · simp [hmagic, ciMagicnumber, ciPcompression, ciAccompression]
        by_cases hpcomp : citype = ciPcompression
        · simp [hpcomp, ciMagicnumber, ciPcompression, ciAccompression]
        by_cases haccomp : citype = ciAccompression
        · simp [haccomp, ciMagicnumber, ciPcompression, ciAccompression]
        simp [hmagic, hpcomp, haccomp, beq_eq_false_iff_ne.mpr hmagic,
          beq_eq_false_iff_ne.mpr hpcomp, beq_eq_false_iff_ne.mpr haccomp]

theorem run_takeCi {go ao : LcpOptions} {cis : List ReqCi}
    (hagreed : ∀ ci ∈ cis, ci.LcpAgreed go ao) :
    run LcpOptions.takeCi LcpOptions.zero cis = { lcpSaid cis with negLqr := false } := by
  induction cis using List.reverseRecOn with
  | nil => rfl
  | append_singleton cis ci ih =>
      rw [run_concat, takeCi_eq (hagreed ci (by simp)), ih fun ci' h => hagreed ci' (by simp [h]),
        lcpSaid_concat]
      rfl

theorem lcpReqci_octets (magic : Nat → UInt32) (o : Lcp) (inp : List UInt8) (reject : Bool) :
    let r := (reqCis inp.length inp).foldl (lcpReqRound magic o.got o.allow reject)
      { his := LcpOptions.zero, nak := [], rej := [], rc := .ack, drawn := o.drawn }
    (lcpReqci magic o inp reject).2.1 =
      match (lcpReqci magic o inp reject).1 with
      | .ack => inp
      | .nak => r.nak
      | .rej => r.rej := rfl

/-- A request that is acknowledged, and what is recorded of it. -/
theorem lcpReqci_ack {magic : Nat → UInt32} {o : Lcp} {inp : List UInt8} {reject : Bool}
    (h : (lcpReqci magic o inp reject).1 = .ack) :
    (lcpReqci magic o inp reject).2.1 = inp ∧
      (lcpReqci magic o inp reject).2.2.his =
        { lcpSaid (reqCis inp.length inp) with negLqr := false } := by
  obtain ⟨_, hagreed, hhis⟩ := lcpReqFold_ack h
  refine ⟨?_, hhis.trans (run_takeCi hagreed)⟩
  rw [lcpReqci_octets, h]

/-! ## The network layer -/

/-- The first address of an address option, of either form. -/
def ReqCi.hisaddr : ReqCi → Option UInt32
  | .opt citype _ body => if citype = ciAddrs ∨ citype = ciAddr then some (longAt body) else none
  | .tail _ => none

/-- A compression option of the old form. -/
def ReqCi.oldForm : ReqCi → Bool
  | .opt citype cilen _ => citype == ciCompresstype && cilen == cilenCompress
  | .tail _ => false

/-- The slots of a compression option; the old form has none and stands for all of them. -/
def ReqCi.maxslotindex : ReqCi → Option UInt8
  | .opt citype cilen body =>
      if citype = ciCompresstype then
        some (if cilen = cilenVj then (body.drop 2).headD 0 else maxStates - 1)
      else none
  | .tail _ => none

/-- The slot-ID flag of a compression option, if its form has one. -/
def ReqCi.slotIdFlag : ReqCi → Option (Option UInt8)
  | .opt citype cilen body =>
      if citype = ciCompresstype then
        some (if cilen = cilenVj then some ((body.drop 3).headD 0) else none)
      else none
  | .tail _ => none

/-- The flag is set in the old form, which does not have it. -/
def ReqCi.cflag (ci : ReqCi) : Option UInt8 := ci.slotIdFlag.map (Option.getD · 1)

/-- What a list of options says. -/
def ipcpSaid (cis : List ReqCi) : IpcpOptions := { IpcpOptions.zero with
  negAddr := cis.any fun ci => ci.hisaddr.isSome
  oldAddrs := cis.any (ReqCi.hasType ciAddrs)
  hisaddr := (lastOf ReqCi.hisaddr cis).getD 0
  ouraddr := (lastOf (ReqCi.value ciAddrs fun body => longAt (body.drop 4)) cis).getD 0
  negVj := cis.any (ReqCi.hasType ciCompresstype)
  oldVj := cis.any ReqCi.oldForm
  vjProtocol := (lastOf (ReqCi.value ciCompresstype shortAt) cis).getD 0
  maxslotindex := (lastOf ReqCi.maxslotindex cis).getD 0
  cflag := (lastOf ReqCi.cflag cis).getD 0 }

def IpcpOptions.takeCi (wo ho : IpcpOptions) : ReqCi → IpcpOptions
  | .opt citype cilen body => IpcpOptions.take wo ho citype cilen body
  | .tail _ => ho

/-- An option that is not refused, with a value we agree with. -/
def ReqCi.IpcpAgreed (wo ao : IpcpOptions) : ReqCi → Prop
  | .opt citype cilen body =>
      ipcpRefuses ao citype cilen body = false ∧ ipcpDisagrees wo ao citype cilen body = false
  | .tail _ => False

/-- The flag as it is recorded. -/
def ReqCi.cflagKept (wo : IpcpOptions) (ci : ReqCi) : Option UInt8 :=
  ci.slotIdFlag.map fun flag => if flag.isSome then wo.cflag else 1

section

variable {wo ao : IpcpOptions} {reject : Bool}

theorem ipcpReqDispose_ack {orc : ConfCode} {cip : List UInt8} {r : IpcpReq}
    (h : (ipcpReqDispose reject orc cip r).rc = .ack) :
    orc = .ack ∧ r.rc = .ack ∧
      ipcpReqDispose reject orc cip r = { r with out := r.out ++ cip } := by
  cases orc with
  | ack =>
      cases hrc : r.rc with
      | ack => simp [ipcpReqDispose, hrc]
      | nak => simp [ipcpReqDispose, hrc] at h
      | rej => simp [ipcpReqDispose, hrc] at h
  | nak => cases reject <;> cases hrc : r.rc <;> simp [ipcpReqDispose, hrc] at h
  | rej => cases hrc : r.rc <;> simp [ipcpReqDispose, hrc] at h

theorem ipcpReqAsk_ack {r : IpcpReq} (h : (ipcpReqAsk wo reject r).1.rc = .ack) :
    ipcpReqAsk wo reject r = (r, wo) := by
  rw [ipcpReqAsk] at h ⊢
  split_ifs at h ⊢ with hask hrc
  · exact absurd h hrc
  · rfl

/-- A value we agree with is sent back as it is. -/
theorem ipcpSuggests_of_agreed {cflag citype cilen : UInt8} {body : List UInt8}
    (hlen : cilen.toNat = body.length + 2) (hrefuse : ipcpRefuses ao citype cilen body = false)
    (hdis : ipcpDisagrees wo ao citype cilen body = false) :
    ipcpSuggests wo ao cflag citype cilen body = body := by
  obtain ⟨haddrs, haddr, hvj⟩ := body_length_of_not_refused hlen hrefuse
  rw [ipcpSuggests]
  rw [ipcpDisagrees] at hdis
  by_cases h1 : citype = ciAddrs
  · rw [if_pos h1, Bool.or_eq_false_iff] at hdis
    rw [if_pos h1, hdis.1, hdis.2]
    exact put32_put32_body (haddrs h1)
  rw [if_neg h1] at hdis ⊢
  by_cases h2 : citype = ciAddr
  · rw [if_pos h2] at hdis
    rw [if_pos h2, hdis]
    exact put32_body (haddr h2)
  rw [if_neg h2] at hdis ⊢
  by_cases h3 : citype = ciCompresstype ∧ cilen = cilenVj
  · rw [if_pos h3.1, h3.2, beq_self_eq_true, Bool.true_and, Bool.or_eq_false_iff] at hdis
    rw [if_pos h3, hdis.1, hdis.2]
    exact put16_body (hvj h3.2)
  · rw [if_neg h3]

/-- A round that does not spoil the answer has accepted its option. -/
theorem ipcpReqRound_ack {r : IpcpReq} {ci : ReqCi} (hwf : ci.WellFormed)
    (h : (ipcpReqRound wo ao reject r ci).rc = .ack) :
    r.rc = .ack ∧ ci.IpcpAgreed wo ao ∧
      (ipcpReqRound wo ao reject r ci).ho = IpcpOptions.takeCi wo r.ho ci ∧
      (ipcpReqRound wo ao reject r ci).out = r.out ++ ci.octets := by
  cases ci with
  | tail octets => exact absurd (ipcpReqDispose_ack h).1 (by decide)
  | opt citype cilen body =>
      rw [ipcpReqRound_eq hwf] at h ⊢
      cases hrefuse : ipcpRefuses ao citype cilen body with
      | true =>
          rw [hrefuse] at h
          exact absurd (ipcpReqDispose_ack h).1 (by decide)
      | false =>
          rw [hrefuse, if_neg (by simp)] at h
          rw [if_neg (by simp)]
          obtain ⟨horc, hrc, heq⟩ := ipcpReqDispose_ack h
          have hdis : ipcpDisagrees wo ao citype cilen body = false := by
            by_contra hdis
            simp [hdis] at horc
          rw [heq]
          refine ⟨hrc, ⟨hrefuse, hdis⟩, rfl, ?_⟩
          rw [ipcpSuggests_of_agreed hwf hrefuse hdis, ite_self]
          rfl

theorem ipcpReqFold_ack {cis : List ReqCi} {r : IpcpReq} (hwf : ∀ ci ∈ cis, ci.WellFormed)
    (h : (cis.foldl (ipcpReqRound wo ao reject) r).rc = .ack) :
    r.rc = .ack ∧ (∀ ci ∈ cis, ci.IpcpAgreed wo ao) ∧
      (cis.foldl (ipcpReqRound wo ao reject) r).ho = run (IpcpOptions.takeCi wo) r.ho cis ∧
      (cis.foldl (ipcpReqRound wo ao reject) r).out = r.out ++ cis.flatMap ReqCi.octets := by
  induction cis generalizing r with
  | nil => exact ⟨h, by simp, rfl, by simp⟩
  | cons ci cis ih =>
      obtain ⟨hmid, hrest, hho, hout⟩ := ih (fun ci' h => hwf ci' (by simp [h])) h
      obtain ⟨hfirst, hagreed, htake, hput⟩ := ipcpReqRound_ack (hwf ci (by simp)) hmid
      refine ⟨hfirst, ?_, ?_, ?_⟩
      · intro ci' hci'
        rcases List.mem_cons.mp hci' with rfl | hmem
        · exact hagreed
        · exact hrest ci' hmem
      · rw [List.foldl_cons, run_cons, hho, htake]
      · rw [List.foldl_cons, hout, hput, List.flatMap_cons, List.append_assoc]

end

/-- What an option says, on top of what was said before it. -/
def IpcpOptions.hear (said : IpcpOptions) (ci : ReqCi) : IpcpOptions := { said with
  negAddr := said.negAddr || ci.hisaddr.isSome
  oldAddrs := said.oldAddrs || ci.hasType ciAddrs
  hisaddr := ci.hisaddr.getD said.hisaddr
  ouraddr := (ci.value ciAddrs fun body => longAt (body.drop 4)).getD said.ouraddr
  negVj := said.negVj || ci.hasType ciCompresstype
  oldVj := said.oldVj || ci.oldForm
  vjProtocol := (ci.value ciCompresstype shortAt).getD said.vjProtocol
  maxslotindex := ci.maxslotindex.getD said.maxslotindex
  cflag := ci.cflag.getD said.cflag }

theorem ipcpSaid_concat (cis : List ReqCi) (ci : ReqCi) :
    ipcpSaid (cis ++ [ci]) = (ipcpSaid cis).hear ci := by
  simp only [ipcpSaid, IpcpOptions.hear, lastOf_concat, List.any_append, List.any_cons,
    List.any_nil, Bool.or_false]

/-- An option that is accepted is recorded as what it says, all but the slot-ID flag. -/
theorem ipcp_takeCi_eq {wo ao ho : IpcpOptions} {ci : ReqCi} (h : ci.IpcpAgreed wo ao) :
    IpcpOptions.takeCi wo ho ci =
      { ho.hear ci with cflag := (ci.cflagKept wo).getD ho.cflag } := by
  cases ci with
  | tail octets => exact h.elim
  | opt citype cilen body =>
      obtain ⟨hrefuse, _⟩ := h
      unfold IpcpOptions.takeCi IpcpOptions.take IpcpOptions.hear ReqCi.hasType ReqCi.value
        ReqCi.hisaddr ReqCi.oldForm ReqCi.maxslotindex ReqCi.cflagKept ReqCi.slotIdFlag
      by_cases haddrs : citype = ciAddrs
      · simp [haddrs, ciAddrs, ciAddr, ciCompresstype]
      by_cases haddr : citype = ciAddr
      · simp [haddr, ciAddrs, ciAddr, ciCompresstype]
      by_cases hvj : citype = ciCompresstype
      · by_cases hform : cilen = cilenVj
        · simp [hvj, hform, ciAddrs, ciAddr, ciCompresstype, cilenVj, cilenCompress]
        · have hold : cilen = cilenCompress := by
            by_contra hnot
            simp [ipcpRefuses, hvj, hform, hnot, ciAddrs, ciAddr, ciCompresstype] at hrefuse
          simp [hvj, hold, ciAddrs, ciAddr, ciCompresstype, cilenVj, cilenCompress]
      · simp [ipcpRefuses, haddrs, haddr, hvj] at hrefuse

theorem run_ipcp_takeCi {wo ao : IpcpOptions} {cis : List ReqCi}
    (hagreed : ∀ ci ∈ cis, ci.IpcpAgreed wo ao) :
    run (IpcpOptions.takeCi wo) IpcpOptions.zero cis =
      { ipcpSaid cis with cflag := (lastOf (ReqCi.cflagKept wo) cis).getD 0 } := by
  induction cis using List.reverseRecOn with
  | nil => rfl
  | append_singleton cis ci ih =>
      rw [run_concat, ipcp_takeCi_eq (hagreed ci (by simp)),
        ih fun ci' h => hagreed ci' (by simp [h]), ipcpSaid_concat, lastOf_concat]
      rfl

/-- A request that is acknowledged, and what is recorded of it. -/
theorem ipcpReqci_ack {o : Ipcp} {inp : List UInt8} {reject : Bool}
    (h : (ipcpReqci o inp reject).1 = .ack) :
    (ipcpReqci o inp reject).2.1 = inp ∧
      (ipcpReqci o inp reject).2.2.his =
        { ipcpSaid (reqCis inp.length inp) with
          cflag := (lastOf (ReqCi.cflagKept o.want) (reqCis inp.length inp)).getD 0 } := by
  simp only [ipcpReqci] at h ⊢
  have hask := ipcpReqAsk_ack h
  rw [hask] at h ⊢
  obtain ⟨_, hagreed, hho, hout⟩ := ipcpReqFold_ack reqCis_wellFormed h
  exact ⟨hout.trans (flatMap_reqCis le_rfl), hho.trans (run_ipcp_takeCi hagreed)⟩

theorem lastOf_map {α β : Type} (f : ReqCi → Option α) (g : α → β) (cis : List ReqCi) :
    lastOf (fun ci => (f ci).map g) cis = (lastOf f cis).map g := by
  rw [lastOf, lastOf, ← List.getLast?_map, List.map_filterMap]

/-- The flag that is recorded is the peer's if that is the one we want. -/
theorem cflagKept_eq_iff {wo : IpcpOptions} {cis : List ReqCi} :
    (lastOf (ReqCi.cflagKept wo) cis).getD 0 = (lastOf ReqCi.cflag cis).getD 0 ↔
      ∀ flag, lastOf ReqCi.slotIdFlag cis = some (some flag) → flag = wo.cflag := by
  unfold ReqCi.cflagKept ReqCi.cflag
  rw [lastOf_map, lastOf_map]
  match lastOf ReqCi.slotIdFlag cis with
  | none => simp
  | some none => simp
  | some (some flag) =>
      simp only [Option.map_some, Option.isSome_some, if_true, Option.getD_some, Option.some.injEq]
      exact ⟨fun h flag' heq => heq ▸ h.symm, fun h => (h flag rfl).symm⟩

/-! ## Both -/

/-- An acknowledged request is sent back as it came. The record of it is what it says if
and only if it has no link quality option, and if its last compression option does not ask
for another slot-ID flag than we want ourselves. -/
theorem acked_recorded_iff (magic : Nat → UInt32) (lcp : Lcp) (o : Ipcp) (inp : Buf)
    (len : Nat) (reject : Bool) :
    ((lcpReqciAt magic lcp inp len reject).1.rc = .ack →
        (lcpReqciAt magic lcp inp len reject).1.data = inp.take len ∧
        ((lcpReqciAt magic lcp inp len reject).2.2.his = lcpSaid (cisAt inp len) ↔
          ∀ ci ∈ cisAt inp len, ci.hasType ciQuality = false)) ∧
    ((ipcpReqciAt o inp len reject).1.rc = .ack →
        (ipcpReqciAt o inp len reject).1.data = inp.take len ∧
        ((ipcpReqciAt o inp len reject).2.his = ipcpSaid (cisAt inp len) ↔
          ∀ flag, lastOf ReqCi.slotIdFlag (cisAt inp len) = some (some flag) →
            flag = o.want.cflag)) := by
  constructor
  · intro hack
    have heq := lcpReqciAt_eq magic lcp inp len reject
    have hlist : (lcpReqci magic lcp (inp.take len) reject).1 = .ack :=
      (congrArg Prod.fst heq).symm.trans hack
    obtain ⟨hdata, hhis⟩ := lcpReqci_ack hlist
    rw [← heq, Buf.length_take] at hhis
    rw [← heq] at hdata
    refine ⟨hdata, ?_⟩
    rw [hhis, cisAt, LcpOptions.ext_iff]
    simp only [lcpSaid, true_and, and_true]
    rw [eq_comm, List.any_eq_false]
    simp only [Bool.not_eq_true]
  · intro hack
    have heq := ipcpReqciAt_eq o inp len reject
    have hlist : (ipcpReqci o (inp.take len) reject).1 = .ack :=
      (congrArg Prod.fst heq).symm.trans hack
    obtain ⟨hdata, hhis⟩ := ipcpReqci_ack hlist
    rw [← heq, Buf.length_take] at hhis
    rw [← heq] at hdata
    refine ⟨hdata, ?_⟩
    rw [hhis, cisAt, ← cflagKept_eq_iff, IpcpOptions.ext_iff]
    simp only [ipcpSaid, true_and, and_true]

/-- A peer that asks for an MRU of 1500, and one that names its address and asks for the
compression we want ourselves. -/
theorem acked_recorded_usual :
    (let a := lcpReqciAt (fun _ => 7) lcpInit (Buf.of [1, 4, 5, 220]) 4 false;
      a.1.rc = .ack ∧ a.1.data = [1, 4, 5, 220] ∧
        a.2.2.his = lcpSaid (cisAt (Buf.of [1, 4, 5, 220]) 4)) ∧
    (let inp := Buf.of [3, 6, 10, 0, 0, 1, 2, 6, 0, 45, 15, 1];
      let a := ipcpReqciAt (ipcpResetci ipcpInit) inp 12 false;
      a.1.rc = .ack ∧ a.1.data = inp.take 12 ∧ a.2.his = ipcpSaid (cisAt inp 12)) := by
  constructor
  · have h := (acked_recorded_iff (fun _ => 7) lcpInit ipcpInit (Buf.of [1, 4, 5, 220]) 4
      false).1 (by decide +kernel)
    exact ⟨by decide +kernel, h.1, h.2.mpr (by decide +kernel)⟩
  · have h := (acked_recorded_iff (fun _ => 7) lcpInit (ipcpResetci ipcpInit)
      (Buf.of [3, 6, 10, 0, 0, 1, 2, 6, 0, 45, 15, 1]) 12 false).2 (by decide +kernel)
    refine ⟨by decide +kernel, h.1, h.2.mpr ?_⟩
    intro flag hflag
    have hone : lastOf ReqCi.slotIdFlag
        (cisAt (Buf.of [3, 6, 10, 0, 0, 1, 2, 6, 0, 45, 15, 1]) 12) = some (some 1) := by
      decide +kernel
    exact Option.some.inj (Option.some.inj (hflag.symm.trans hone))

/-- A peer that wants no slot-ID compression is acknowledged, and then gets it: its
option is `2 6 0 45 15 0`, with a flag of 0. -/
theorem slotIdFlag_not_recorded :
    ¬ ∀ (o : Ipcp) (inp : Buf) (len : Nat) (reject : Bool),
      (ipcpReqciAt o inp len reject).1.rc = .ack →
        (ipcpReqciAt o inp len reject).1.data = inp.take len ∧
        (ipcpReqciAt o inp len reject).2.his = ipcpSaid (cisAt inp len) := by
  intro h
  have hrec := (h (ipcpResetci ipcpInit)
    (Buf.of [3, 6, 10, 0, 0, 1, 2, 6, 0, 45, 15, 0]) 12 false (by decide +kernel)).2
  exact absurd (congrArg IpcpOptions.cflag hrec) (by decide +kernel)

end VxWorks.Ppp
