import Mathlib.Tactic.Common
import VxWorks.Ppp.Ipcp

/-!
# The verdict on an option (`lcp.c`, `ipcp.c`)

The `switch` of `lcp_reqci` does four things to an option at once: it decides whether the
option is refused, whether its value is one we agree with, what to suggest instead, and
what to record of it. Here each is a function of its own, and `lcpVerdict_eq` says that
the `switch` is the four of them in turn. The same for `ipcp_reqci`.

What the list of options is made of, and that its octets are those of the request, is the
first part.
-/

namespace VxWorks.Ppp

open VxWorks.Lib

/-! ## The list of options -/

def ReqCi.octets : ReqCi → List UInt8
  | .opt citype cilen body => citype :: cilen :: body
  | .tail octets => octets

/-- The length octet of an option is its length. -/
def ReqCi.WellFormed : ReqCi → Prop
  | .opt _ cilen body => cilen.toNat = body.length + 2
  | .tail _ => True

/-- The options of a request are its octets. -/
theorem flatMap_reqCis {rounds : Nat} {inp : List UInt8} (h : inp.length ≤ rounds) :
    (reqCis rounds inp).flatMap ReqCi.octets = inp := by
  induction rounds generalizing inp with
  | zero =>
      obtain rfl : inp = [] := List.eq_nil_of_length_eq_zero (Nat.le_zero.mp h)
      rfl
  | succ rounds ih =>
      match inp with
      | [] => rfl
      | [b] => rfl
      | citype :: cilen :: rest =>
          rw [reqCis]
          split
          · simp [ReqCi.octets]
          · have hrest : (rest.drop (cilen.toNat - 2)).length ≤ rounds := by
              simp only [List.length_cons, List.length_drop] at h ⊢
              omega
            rw [List.flatMap_cons, ih hrest]
            simp [ReqCi.octets]

theorem reqCis_wellFormed {rounds : Nat} {inp : List UInt8} :
    ∀ ci ∈ reqCis rounds inp, ci.WellFormed := by
  induction rounds generalizing inp with
  | zero => simp [reqCis]
  | succ rounds ih =>
      match inp with
      | [] => simp [reqCis]
      | [b] => simp [reqCis, ReqCi.WellFormed]
      | citype :: cilen :: rest =>
          rw [reqCis]
          split
          · simp [ReqCi.WellFormed]
          · next hfits =>
              rw [not_or, UInt8.lt_iff_toNat_lt] at hfits
              simp only [UInt8.reduceToNat] at hfits
              intro ci hci
              rcases List.mem_cons.mp hci with rfl | hci
              · show cilen.toNat = (rest.take (cilen.toNat - 2)).length + 2
                rw [List.length_take]
                omega
              · exact ih ci hci

/-- More rounds than there are octets make no difference. -/
theorem reqCis_enough {n m : Nat} {p : List UInt8} (hn : p.length ≤ n) (hm : p.length ≤ m) :
    reqCis n p = reqCis m p := by
  induction n generalizing m p with
  | zero =>
      obtain rfl : p = [] := List.eq_nil_of_length_eq_zero (by omega)
      cases m <;> rfl
  | succ n ih =>
      match m, p with
      | 0, p =>
          obtain rfl : p = [] := List.eq_nil_of_length_eq_zero (by omega)
          rfl
      | m + 1, [] => rfl
      | m + 1, [_] => rfl
      | m + 1, citype :: cilen :: rest =>
          rw [List.length_cons, List.length_cons] at hn hm
          have hrest : reqCis n (rest.drop (cilen.toNat - 2)) =
              reqCis m (rest.drop (cilen.toNat - 2)) :=
            ih (by rw [List.length_drop]; omega) (by rw [List.length_drop]; omega)
          rw [reqCis, reqCis, hrest]

/-- An option that is one, with its length. -/
def ReqCi.Whole : ReqCi → Prop
  | .opt _ cilen body => cilen.toNat = body.length + 2
  | .tail _ => False

/-- A list of options is read back as what it is. -/
theorem reqCis_flatMap {cis : List ReqCi} (hwhole : ∀ ci ∈ cis, ci.Whole) {n : Nat}
    (hn : (cis.flatMap ReqCi.octets).length ≤ n) : reqCis n (cis.flatMap ReqCi.octets) = cis := by
  induction cis generalizing n with
  | nil => cases n <;> rfl
  | cons ci cis ih =>
      have hci := hwhole ci (by simp)
      cases ci with
      | tail octets => exact hci.elim
      | opt citype cilen body =>
          have hlen : cilen.toNat = body.length + 2 := hci
          simp only [List.flatMap_cons, ReqCi.octets, List.cons_append, List.length_cons,
            List.length_append] at hn ⊢
          obtain ⟨n, rfl⟩ : ∃ k, n = k + 1 := ⟨n - 1, by omega⟩
          have hfits : ¬ (cilen < 2 ∨
              (body ++ cis.flatMap ReqCi.octets).length + 2 < cilen.toNat) := by
            rw [UInt8.lt_iff_toNat_lt, List.length_append]
            simp only [UInt8.reduceToNat]
            omega
          have hbody : cilen.toNat - 2 = body.length := by omega
          rw [reqCis, if_neg hfits, hbody, List.take_left, List.drop_left,
            ih (fun ci' h => hwhole ci' (by simp [h])) (by omega)]

/-! ## The link -/

/-- Unknown, not allowed, of the wrong length, or a second authentication protocol. -/
def lcpRefuses (go ao his : LcpOptions) (citype cilen : UInt8) (body : List UInt8) : Bool :=
  if citype = ciMru then !ao.negMru || cilen != cilenShort
  else if citype = ciAsyncmap then !ao.negAsyncmap || cilen != cilenLong
  else if citype = ciAuthtype then
    if cilen < cilenShort ∨ !(ao.negUpap || ao.negChap) then true
    else if shortAt body = upapProto then his.negChap || cilen != cilenShort
    else if shortAt body = chapProto then his.negUpap || cilen != cilenChap
    else false
  else if citype = ciQuality then !ao.negLqr || cilen != cilenLqr
  else if citype = ciMagicnumber then
    !(ao.negMagicnumber || go.negMagicnumber) || cilen != cilenLong
  else if citype = ciPcompression then !ao.negPcompression || cilen != cilenVoid
  else if citype = ciAccompression then !ao.negAccompression || cilen != cilenVoid
  else true

/-- A value we do not agree with. -/
def lcpDisagrees (go ao : LcpOptions) (citype : UInt8) (body : List UInt8) : Bool :=
  if citype = ciMru then decide (shortAt body < minmru)
  else if citype = ciAsyncmap then ao.asyncmap &&& ~~~ (longAt body) != 0
  else if citype = ciAuthtype then
    if shortAt body = upapProto then !ao.negUpap
    else if shortAt body = chapProto then
      !ao.negChap || (body.drop 2).headD 0 != ao.chapMdtype
    else true
  else if citype = ciQuality then shortAt body != lqrProto
  else if citype = ciMagicnumber then go.negMagicnumber && longAt body == go.magicnumber
  else false

/-- What is put into the Nak for such a value. For the MRU and the asyncmap it is nothing. -/
def lcpSuggests (magic : Nat → UInt32) (ao : LcpOptions) (drawn : Nat) (citype : UInt8) :
    List UInt8 :=
  if citype = ciAuthtype then
    if ao.negChap then (ciChap ciAuthtype).put (chapProto, ao.chapMdtype)
    else (ciShort ciAuthtype).put upapProto
  else if citype = ciQuality then (ciLqr ciQuality).put (lqrProto, ao.lqrPeriod)
  else if citype = ciMagicnumber then (ciLong ciMagicnumber).put (magic drawn)
  else []

/-- What is recorded of an option that is accepted. -/
def LcpOptions.take (his : LcpOptions) (citype : UInt8) (body : List UInt8) : LcpOptions :=
  if citype = ciMru then { his with negMru := true, mru := shortAt body }
  else if citype = ciAsyncmap then { his with negAsyncmap := true, asyncmap := longAt body }
  else if citype = ciAuthtype then
    if shortAt body = upapProto then { his with negUpap := true }
    else { his with chapMdtype := (body.drop 2).headD 0, negChap := true }
  else if citype = ciMagicnumber then
    { his with negMagicnumber := true, magicnumber := longAt body }
  else if citype = ciPcompression then { his with negPcompression := true }
  else if citype = ciAccompression then { his with negAccompression := true }
  else his

/-- The verdict on an option, apart from the reply under construction. -/
def lcpVerdict (magic : Nat → UInt32) (go ao his : LcpOptions) (drawn : Nat)
    (citype cilen : UInt8) (body : List UInt8) : ConfCode × LcpReq :=
  lcpReqOpt magic go ao ⟨his, [], [], .ack, drawn⟩ citype cilen body

/-- All that an option does to the reply is to add a suggestion at its end. -/
theorem lcpReqOpt_frame (magic : Nat → UInt32) (go ao : LcpOptions) (r : LcpReq)
    (citype cilen : UInt8) (body : List UInt8) :
    lcpReqOpt magic go ao r citype cilen body =
      ((lcpVerdict magic go ao r.his r.drawn citype cilen body).1,
        { r with
          his := (lcpVerdict magic go ao r.his r.drawn citype cilen body).2.his
          nak := r.nak ++ (lcpVerdict magic go ao r.his r.drawn citype cilen body).2.nak
          drawn := (lcpVerdict magic go ao r.his r.drawn citype cilen body).2.drawn }) := by
  let f (v : ConfCode × LcpReq) : ConfCode × LcpReq :=
    (v.1, { r with his := v.2.his, nak := r.nak ++ v.2.nak, drawn := v.2.drawn })
  show _ = f (lcpReqOpt magic go ao ⟨r.his, [], [], .ack, r.drawn⟩ citype cilen body)
  unfold lcpReqOpt lcpReqAuth LcpReq.nakWith
  simp only [apply_ite f]
  simp only [f, List.append_nil, List.nil_append]

section

variable {magic : Nat → UInt32} {go ao his : LcpOptions} {drawn : Nat} {citype cilen : UInt8}
  {body : List UInt8}

theorem lcpReqAuth_eq :
    lcpReqAuth ao ⟨his, [], [], .ack, drawn⟩ cilen body =
      if lcpRefuses go ao his ciAuthtype cilen body then (.rej, ⟨his, [], [], .ack, drawn⟩)
      else if lcpDisagrees go ao ciAuthtype body then
        (.nak, ⟨his, lcpSuggests magic ao drawn ciAuthtype, [], .ack, drawn⟩)
      else (.ack, ⟨his.take ciAuthtype body, [], [], .ack, drawn⟩) := by
  have hmru : ciAuthtype ≠ ciMru := by decide
  have hasync : ciAuthtype ≠ ciAsyncmap := by decide
  unfold lcpReqAuth lcpRefuses lcpDisagrees lcpSuggests LcpOptions.take LcpReq.nakWith
  simp only [hmru, hasync, if_false, if_true, List.nil_append]
  by_cases hbad : cilen < cilenShort ∨ (!(ao.negUpap || ao.negChap)) = true
  · simp only [hbad, if_true]
  · have hauth : ao.negUpap = true ∨ ao.negChap = true := by
      have h := (not_or.mp hbad).2
      rwa [Bool.not_eq_true', Bool.not_eq_false, Bool.or_eq_true] at h
    simp only [hbad, if_false]
    by_cases hupap : shortAt body = upapProto
    · simp only [hupap, if_true, Bool.or_eq_true, bne_iff_ne]
      cases ha : ao.negUpap with
      | true => simp
      | false =>
          have hc : ao.negChap = true := hauth.resolve_left (by simp [ha])
          simp [hc]
    · simp only [hupap, if_false]
      by_cases hchap : shortAt body = chapProto
      · simp only [hchap, if_true, Bool.or_eq_true, bne_iff_ne]
        cases ha : ao.negChap with
        | true => simp
        | false => simp
      · simp only [hchap, if_false, if_true, Bool.false_eq_true]

/-- The `switch` of `lcp_reqci`. -/
theorem lcpVerdict_eq :
    lcpVerdict magic go ao his drawn citype cilen body =
      if lcpRefuses go ao his citype cilen body then (.rej, ⟨his, [], [], .ack, drawn⟩)
      else if lcpDisagrees go ao citype body then
        (.nak, ⟨his, lcpSuggests magic ao drawn citype, [], .ack,
          if citype = ciMagicnumber then drawn + 1 else drawn⟩)
      else (.ack, ⟨his.take citype body, [], [], .ack, drawn⟩) := by
  unfold lcpVerdict
  by_cases hauth : citype = ciAuthtype
  · subst hauth
    exact @lcpReqAuth_eq magic go ao his drawn cilen body
  unfold lcpReqOpt lcpRefuses lcpDisagrees lcpSuggests LcpOptions.take LcpReq.nakWith
  simp only [hauth, if_false, List.nil_append]
  by_cases hmru : citype = ciMru
  · simp [hmru, ciMru, ciQuality, ciMagicnumber]
  by_cases hasync : citype = ciAsyncmap
  · simp [hasync, ciAsyncmap, ciMru, ciQuality, ciMagicnumber]
  by_cases hqual : citype = ciQuality
  · simp [hqual, ciAsyncmap, ciMru, ciQuality, ciMagicnumber, ciPcompression, ciAccompression]
  by_cases hmagic : citype = ciMagicnumber
  · simp [hmagic, ciAsyncmap, ciMru, ciQuality, ciMagicnumber]
  by_cases hpcomp : citype = ciPcompression
  · simp [hpcomp, ciAsyncmap, ciMru, ciQuality, ciMagicnumber, ciPcompression]
  by_cases haccomp : citype = ciAccompression
  · simp [haccomp, ciAsyncmap, ciMru, ciQuality, ciMagicnumber, ciPcompression, ciAccompression]
  simp [hmru, hasync, hqual, hmagic, hpcomp, haccomp]

/-- A round of `lcp_reqci`. -/
theorem lcpReqRound_eq {reject : Bool} {r : LcpReq} :
    lcpReqRound magic go ao reject r (.opt citype cilen body) =
      if lcpRefuses go ao r.his citype cilen body then
        { r with rc := .rej, rej := r.rej ++ citype :: cilen :: body }
      else if lcpDisagrees go ao citype body then
        { r with
          nak := r.nak ++ lcpSuggests magic ao r.drawn citype
          drawn := if citype = ciMagicnumber then r.drawn + 1 else r.drawn
          rc := if reject ∧ citype ≠ ciMagicnumber ∨ r.rc = .rej then .rej else .nak
          rej := if reject ∧ citype ≠ ciMagicnumber then r.rej ++ citype :: cilen :: body
            else r.rej }
      else { r with his := r.his.take citype body } := by
  rw [lcpReqRound, lcpReqOpt_frame, lcpVerdict_eq]
  cases lcpRefuses go ao r.his citype cilen body with
  | true => simp [lcpReqDispose]
  | false =>
      cases lcpDisagrees go ao citype body with
      | false => simp [lcpReqDispose]
      | true =>
          by_cases htough : reject = true ∧ citype ≠ ciMagicnumber
          · simp [lcpReqDispose, htough]
          · by_cases hrc : r.rc = .rej
            · simp [lcpReqDispose, htough, hrc]
            · simp [lcpReqDispose, htough, hrc]

/-- What a round records. -/
theorem lcpReqRound_his {reject : Bool} {r : LcpReq} :
    (lcpReqRound magic go ao reject r (.opt citype cilen body)).his =
      if lcpRefuses go ao r.his citype cilen body || lcpDisagrees go ao citype body then r.his
      else r.his.take citype body := by
  rw [lcpReqRound_eq]
  cases lcpRefuses go ao r.his citype cilen body with
  | true => rfl
  | false => cases lcpDisagrees go ao citype body <;> rfl

end

/-! ## The network layer -/

/-- Unknown, not allowed or of the wrong length. -/
def ipcpRefuses (ao : IpcpOptions) (citype cilen : UInt8) (body : List UInt8) : Bool :=
  if citype = ciAddrs then !ao.negAddr || cilen != cilenAddrs
  else if citype = ciAddr then !ao.negAddr || cilen != cilenAddr
  else if citype = ciCompresstype then
    !ao.negVj || (cilen != cilenVj && cilen != cilenCompress) ||
      !(shortAt body == ipcpVjComp ||
        (shortAt body == ipcpVjCompOld && cilen == cilenCompress))
  else true

/-- An address of the peer's that is not our idea of it. -/
def hisAddrWrong (wo : IpcpOptions) (ciaddr1 : UInt32) : Bool :=
  ciaddr1 != wo.hisaddr && (ciaddr1 == 0 || !wo.acceptRemote)

/-- The peer's idea of our address, when it is not our own. -/
def ourAddrWrong (wo : IpcpOptions) (ciaddr2 : UInt32) : Bool :=
  ciaddr2 != wo.ouraddr && (ciaddr2 == 0 || !wo.acceptLocal)

def slotWrong (ao : IpcpOptions) (body : List UInt8) : Bool :=
  decide (ao.maxslotindex < (body.drop 2).headD 0)

def cflagWrong (ao : IpcpOptions) (body : List UInt8) : Bool :=
  (body.drop 3).headD 0 != 0 && ao.cflag == 0

/-- A value we do not agree with. -/
def ipcpDisagrees (wo ao : IpcpOptions) (citype cilen : UInt8) (body : List UInt8) : Bool :=
  if citype = ciAddrs then
    hisAddrWrong wo (longAt body) || ourAddrWrong wo (longAt (body.drop 4))
  else if citype = ciAddr then hisAddrWrong wo (longAt body)
  else if citype = ciCompresstype then
    cilen == cilenVj && (slotWrong ao body || cflagWrong ao body)
  else false

/-- The value as it is sent back, with `cflag` for a slot-ID flag that is too much. -/
def ipcpSuggests (wo ao : IpcpOptions) (cflag : UInt8) (citype cilen : UInt8)
    (body : List UInt8) : List UInt8 :=
  if citype = ciAddrs then
    put32 (if hisAddrWrong wo (longAt body) then wo.hisaddr else longAt body) ++
      put32 (if ourAddrWrong wo (longAt (body.drop 4)) then wo.ouraddr else longAt (body.drop 4))
  else if citype = ciAddr then
    put32 (if hisAddrWrong wo (longAt body) then wo.hisaddr else longAt body)
  else if citype = ciCompresstype ∧ cilen = cilenVj then
    put16 (shortAt body) ++
      [if slotWrong ao body then ao.maxslotindex else (body.drop 2).headD 0,
        if cflagWrong ao body then cflag else (body.drop 3).headD 0]
  else body

/-- What is recorded of an option that is not refused. -/
def IpcpOptions.take (wo ho : IpcpOptions) (citype cilen : UInt8) (body : List UInt8) :
    IpcpOptions :=
  if citype = ciAddrs then
    { ho with
      negAddr := true, oldAddrs := true, hisaddr := longAt body
      ouraddr := longAt (body.drop 4) }
  else if citype = ciAddr then { ho with negAddr := true, hisaddr := longAt body }
  else if cilen = cilenVj then
    { ho with
      negVj := true, vjProtocol := shortAt body, maxslotindex := (body.drop 2).headD 0
      cflag := wo.cflag }
  else
    { ho with
      negVj := true, vjProtocol := shortAt body, oldVj := true
      maxslotindex := maxStates - 1, cflag := 1 }

/-- The peer's idea of our address, when an option makes us take it over. -/
def ipcpTakesOver (wo ao : IpcpOptions) (citype cilen : UInt8) (body : List UInt8) :
    Option UInt32 :=
  let ciaddr2 := longAt (body.drop 4)
  if citype = ciAddrs ∧ ao.negAddr ∧ cilen = cilenAddrs ∧ ciaddr2 ≠ wo.ouraddr ∧ ciaddr2 ≠ 0 ∧
      wo.acceptLocal then some ciaddr2
  else none

/-- The verdict on an option, apart from the reply under construction. -/
def ipcpVerdict (wo ao : IpcpOptions) (rejectIfDisagree : Bool) (go ho : IpcpOptions)
    (citype cilen : UInt8) (body : List UInt8) : ConfCode × List UInt8 × IpcpReq :=
  ipcpReqOpt wo ao rejectIfDisagree ⟨go, ho, [], .ack⟩ citype cilen body

/-- The reply so far has no part in the verdict. -/
theorem ipcpReqOpt_frame (wo ao : IpcpOptions) (reject : Bool) (r : IpcpReq)
    (citype cilen : UInt8) (body : List UInt8) :
    ipcpReqOpt wo ao reject r citype cilen body =
      ((ipcpVerdict wo ao reject r.go r.ho citype cilen body).1,
        (ipcpVerdict wo ao reject r.go r.ho citype cilen body).2.1,
        { r with
          go := (ipcpVerdict wo ao reject r.go r.ho citype cilen body).2.2.go
          ho := (ipcpVerdict wo ao reject r.go r.ho citype cilen body).2.2.ho }) := by
  let f (v : ConfCode × List UInt8 × IpcpReq) : ConfCode × List UInt8 × IpcpReq :=
    (v.1, v.2.1, { r with go := v.2.2.go, ho := v.2.2.ho })
  show _ = f (ipcpReqOpt wo ao reject ⟨r.go, r.ho, [], .ack⟩ citype cilen body)
  unfold ipcpReqOpt
  simp only [apply_ite f]
  simp only [f]

theorem put32_longAt {body : List UInt8} (h : 4 ≤ body.length) :
    put32 (longAt body) = body.take 4 := by
  match body, h with
  | b3 :: b2 :: b1 :: b0 :: _, _ => exact put32_get32 b3 b2 b1 b0

/-! The three bodies that are read and written as numbers. -/

theorem put32_body {body : List UInt8} (hlen : body.length = 4) : put32 (longAt body) = body := by
  rw [put32_longAt (by omega), List.take_of_length_le (by omega)]

theorem put32_put32_body {body : List UInt8} (hlen : body.length = 8) :
    put32 (longAt body) ++ put32 (longAt (body.drop 4)) = body := by
  have hsecond : put32 (longAt (body.drop 4)) = body.drop 4 := put32_body (by simp [hlen])
  rw [put32_longAt (by omega), hsecond, List.take_append_drop]

theorem put16_body {body : List UInt8} (hlen : body.length = 4) :
    put16 (shortAt body) ++ [(body.drop 2).headD 0, (body.drop 3).headD 0] = body := by
  match body, hlen with
  | [b1, b0, b2, b3], _ =>
      show put16 (get16 b1 b0) ++ [b2, b3] = _
      rw [put16_get16]
      rfl

section

variable {wo ao : IpcpOptions} {reject : Bool} {go ho : IpcpOptions} {citype cilen : UInt8}
  {body : List UInt8}

theorem nakAddr_eq {disagree : Bool} {ours theirs : UInt32} :
    nakAddr reject disagree ours theirs =
      (if disagree then .nak else .ack,
        put32 (if reject then theirs else if disagree then ours else theirs)) := by
  cases disagree <;> cases reject <;> rfl

theorem both_eq {a b : Bool} :
    ConfCode.both (if a then .nak else .ack) (if b then .nak else .ack) =
      if a || b then .nak else .ack := by
  cases a <;> cases b <;> rfl

/-- Our address is taken over when the peer's idea of it is another and we go along. -/
theorem takesOver_addrs (hneg : ao.negAddr = true) :
    ipcpTakesOver wo ao ciAddrs cilenAddrs body =
      if ourAddrWrong wo (longAt (body.drop 4)) = false ∧ longAt (body.drop 4) ≠ wo.ouraddr then
        some (longAt (body.drop 4))
      else none := by
  rw [ipcpTakesOver, ourAddrWrong]
  simp only [hneg]
  congr 1
  by_cases hours : longAt (body.drop 4) = wo.ouraddr
  · simp [hours]
  · by_cases hzero : longAt (body.drop 4) = 0
    · simp [hzero]
    · simp [hours, hzero]

theorem ipcpVerdict_addrs (hneg : ao.negAddr = true) (hlen : body.length = 8) :
    ipcpVerdict wo ao reject go ho ciAddrs cilenAddrs body =
      (if ipcpDisagrees wo ao ciAddrs cilenAddrs body then .nak else .ack,
        if reject then body else ipcpSuggests wo ao wo.cflag ciAddrs cilenAddrs body,
        ⟨match ipcpTakesOver wo ao ciAddrs cilenAddrs body with
          | some ouraddr => { go with ouraddr := ouraddr }
          | none => go, IpcpOptions.take wo ho ciAddrs cilenAddrs body, [], .ack⟩) := by
  have hgood : ¬ ((!ao.negAddr) = true ∨ cilenAddrs ≠ cilenAddrs) := by simp [hneg]
  rw [ipcpVerdict, ipcpReqOpt]
  rw [if_pos rfl, if_neg hgood]
  simp only [nakAddr_eq, both_eq]
  refine Prod.ext rfl (Prod.ext ?_ ?_)
  · cases reject with
    | true => exact put32_put32_body hlen
    | false => rfl
  · rw [takesOver_addrs hneg]
    show IpcpReq.mk _ _ _ _ = _
    congr 1
    rw [ourAddrWrong]
    generalize (longAt (body.drop 4) != wo.ouraddr &&
      (longAt (body.drop 4) == 0 || !wo.acceptLocal)) = wrong
    cases wrong with
    | true => simp
    | false => by_cases h : longAt (body.drop 4) = wo.ouraddr <;> simp [h]

theorem ipcpVerdict_addr (hneg : ao.negAddr = true) (hlen : body.length = 4) :
    ipcpVerdict wo ao reject go ho ciAddr cilenAddr body =
      (if ipcpDisagrees wo ao ciAddr cilenAddr body then .nak else .ack,
        if reject then body else ipcpSuggests wo ao wo.cflag ciAddr cilenAddr body,
        ⟨go, IpcpOptions.take wo ho ciAddr cilenAddr body, [], .ack⟩) := by
  have hgood : ¬ ((!ao.negAddr) = true ∨ cilenAddr ≠ cilenAddr) := by simp [hneg]
  have hne : ciAddr ≠ ciAddrs := by decide
  rw [ipcpVerdict, ipcpReqOpt]
  rw [if_neg hne, if_pos rfl, if_neg hgood]
  simp only [nakAddr_eq]
  refine Prod.ext rfl (Prod.ext ?_ rfl)
  cases reject with
  | true => exact put32_body hlen
  | false => rfl

theorem ipcpVerdict_vj (hneg : ao.negVj = true) (hproto : shortAt body = ipcpVjComp)
    (hlen : body.length = 4) :
    ipcpVerdict wo ao reject go ho ciCompresstype cilenVj body =
      (if ipcpDisagrees wo ao ciCompresstype cilenVj body then .nak else .ack,
        if reject then body else ipcpSuggests wo ao wo.cflag ciCompresstype cilenVj body,
        ⟨go, IpcpOptions.take wo ho ciCompresstype cilenVj body, [], .ack⟩) := by
  rw [ipcpVerdict, ipcpReqOpt]
  rw [if_neg (by decide : ciCompresstype ≠ ciAddrs), if_neg (by decide : ciCompresstype ≠ ciAddr),
    if_pos rfl]
  simp only [hneg, hproto, Bool.not_true, Bool.false_eq_true, ne_eq, not_true_eq_false, false_and,
    or_self, if_false, true_or, if_true]
  refine Prod.ext rfl (Prod.ext ?_ ?_)
  · rw [← hproto]
    cases reject with
    | true => simpa using put16_body hlen
    | false =>
        simp only [Bool.not_false, Bool.and_true, Bool.false_eq_true, if_false]
        rfl
  · rw [← hproto]
    rfl

theorem ipcpVerdict_oldVj (hneg : ao.negVj = true)
    (hproto : shortAt body = ipcpVjComp ∨ shortAt body = ipcpVjCompOld) :
    ipcpVerdict wo ao reject go ho ciCompresstype cilenCompress body =
      (.ack, body, ⟨go, IpcpOptions.take wo ho ciCompresstype cilenCompress body, [], .ack⟩) := by
  rw [ipcpVerdict, ipcpReqOpt]
  rw [if_neg (by decide : ciCompresstype ≠ ciAddrs), if_neg (by decide : ciCompresstype ≠ ciAddr),
    if_pos rfl]
  have hnot : cilenCompress ≠ cilenVj := by decide
  simp only [hneg, hproto, Bool.not_true, Bool.false_eq_true, ne_eq, not_true_eq_false, and_false,
    and_true, or_self, if_false, hnot]
  rfl

theorem ipcpVerdict_refused (h : ipcpRefuses ao citype cilen body = true) :
    ipcpVerdict wo ao reject go ho citype cilen body = (.rej, body, ⟨go, ho, [], .ack⟩) := by
  rw [ipcpRefuses] at h
  rw [ipcpVerdict, ipcpReqOpt]
  by_cases haddrs : citype = ciAddrs
  · rw [if_pos haddrs, Bool.or_eq_true, bne_iff_ne] at h
    rw [if_pos haddrs, if_pos h]
  rw [if_neg haddrs] at h ⊢
  by_cases haddr : citype = ciAddr
  · rw [if_pos haddr, Bool.or_eq_true, bne_iff_ne] at h
    rw [if_pos haddr, if_pos h]
  rw [if_neg haddr] at h ⊢
  by_cases hvj : citype = ciCompresstype
  · rw [if_pos hvj] at h ⊢
    by_cases hlen : (!ao.negVj) = true ∨ cilen ≠ cilenVj ∧ cilen ≠ cilenCompress
    · rw [if_pos hlen]
    · have hproto : ¬ (shortAt body = ipcpVjComp ∨
          shortAt body = ipcpVjCompOld ∧ cilen = cilenCompress) := by
        rw [Bool.or_eq_true, Bool.or_eq_true, Bool.and_eq_true, bne_iff_ne, bne_iff_ne] at h
        have hnot := h.resolve_left hlen
        rwa [Bool.not_eq_true', ← Bool.not_eq_true, Bool.or_eq_true, Bool.and_eq_true, beq_iff_eq,
          beq_iff_eq, beq_iff_eq] at hnot
      rw [if_neg hlen, if_pos hproto]
  · rw [if_neg hvj]

/-- The `switch` of `ipcp_reqci`. -/
theorem ipcpVerdict_eq (hlen : cilen.toNat = body.length + 2) :
    ipcpVerdict wo ao reject go ho citype cilen body =
      if ipcpRefuses ao citype cilen body then (.rej, body, ⟨go, ho, [], .ack⟩)
      else
        (if ipcpDisagrees wo ao citype cilen body then .nak else .ack,
          if reject then body else ipcpSuggests wo ao wo.cflag citype cilen body,
          ⟨match ipcpTakesOver wo ao citype cilen body with
            | some ouraddr => { go with ouraddr := ouraddr }
            | none => go, IpcpOptions.take wo ho citype cilen body, [], .ack⟩) := by
  cases hrefuse : ipcpRefuses ao citype cilen body with
  | true => exact ipcpVerdict_refused hrefuse
  | false =>
      rw [if_neg (by simp)]
      have hother : citype ≠ ciAddrs → ipcpTakesOver wo ao citype cilen body = none :=
        fun h => if_neg fun hall => h hall.1
      rw [ipcpRefuses] at hrefuse
      by_cases haddrs : citype = ciAddrs
      · rw [if_pos haddrs, Bool.or_eq_false_iff, Bool.not_eq_false', bne_eq_false_iff_eq] at hrefuse
        obtain ⟨hneg, rfl⟩ := hrefuse
        subst haddrs
        exact ipcpVerdict_addrs hneg (by simpa [cilenAddrs] using hlen.symm)
      rw [hother haddrs]
      rw [if_neg haddrs] at hrefuse
      by_cases haddr : citype = ciAddr
      · rw [if_pos haddr, Bool.or_eq_false_iff, Bool.not_eq_false', bne_eq_false_iff_eq] at hrefuse
        obtain ⟨hneg, rfl⟩ := hrefuse
        subst haddr
        exact ipcpVerdict_addr hneg (by simpa [cilenAddr] using hlen.symm)
      rw [if_neg haddr] at hrefuse
      by_cases hvj : citype = ciCompresstype
      · rw [if_pos hvj, Bool.or_eq_false_iff, Bool.or_eq_false_iff, Bool.not_eq_false',
          Bool.not_eq_false', Bool.and_eq_false_iff, bne_eq_false_iff_eq, bne_eq_false_iff_eq,
          Bool.or_eq_true, Bool.and_eq_true, beq_iff_eq, beq_iff_eq, beq_iff_eq] at hrefuse
        obtain ⟨⟨hneg, hcilen⟩, hproto⟩ := hrefuse
        subst hvj
        rcases hcilen with rfl | rfl
        · have hnew : shortAt body = ipcpVjComp :=
            hproto.resolve_right fun h => absurd h.2 (by decide)
          exact ipcpVerdict_vj hneg hnew (by simpa [cilenVj] using hlen.symm)
        · rw [ipcpVerdict_oldVj hneg (hproto.imp_right And.left)]
          refine Prod.ext ?_ (Prod.ext ?_ rfl)
          · rfl
          · cases reject <;> rfl
      · rw [if_neg hvj] at hrefuse
        cases hrefuse

/-- A round of `ipcp_reqci`. -/
theorem ipcpReqRound_eq {r : IpcpReq} (hlen : cilen.toNat = body.length + 2) :
    ipcpReqRound wo ao reject r (.opt citype cilen body) =
      if ipcpRefuses ao citype cilen body then
        ipcpReqDispose reject .rej (citype :: cilen :: body) r
      else
        ipcpReqDispose reject (if ipcpDisagrees wo ao citype cilen body then .nak else .ack)
          (citype :: cilen ::
            if reject then body else ipcpSuggests wo ao wo.cflag citype cilen body)
          { r with
            go := match ipcpTakesOver wo ao citype cilen body with
              | some ouraddr => { r.go with ouraddr := ouraddr }
              | none => r.go
            ho := IpcpOptions.take wo r.ho citype cilen body } := by
  rw [ipcpReqRound, ipcpReqOpt_frame, ipcpVerdict_eq hlen]
  cases ipcpRefuses ao citype cilen body with
  | true => rfl
  | false => rfl

/-- The lengths of the options that are not refused. -/
theorem body_length_of_not_refused (hlen : cilen.toNat = body.length + 2)
    (hrefuse : ipcpRefuses ao citype cilen body = false) :
    (citype = ciAddrs → body.length = 8) ∧ (citype = ciAddr → body.length = 4) ∧
      (cilen = cilenVj → body.length = 4) := by
  have hten : cilenAddrs.toNat = 10 := rfl
  have hsix : cilenAddr.toNat = 6 := rfl
  have hvj : cilenVj.toNat = 6 := rfl
  rw [ipcpRefuses] at hrefuse
  refine ⟨?_, ?_, ?_⟩
  · intro h
    rw [if_pos h, Bool.or_eq_false_iff, bne_eq_false_iff_eq] at hrefuse
    rw [hrefuse.2] at hlen
    omega
  · intro h
    rw [if_neg (h ▸ by decide), if_pos h, Bool.or_eq_false_iff, bne_eq_false_iff_eq] at hrefuse
    rw [hrefuse.2] at hlen
    omega
  · intro h
    rw [h] at hlen
    omega

/-- A suggestion is as long as the value it replaces. -/
theorem ipcpSuggests_length {cflag : UInt8} (hlen : cilen.toNat = body.length + 2)
    (hrefuse : ipcpRefuses ao citype cilen body = false) :
    (ipcpSuggests wo ao cflag citype cilen body).length = body.length := by
  obtain ⟨haddrs, haddr, hvj⟩ := body_length_of_not_refused hlen hrefuse
  rw [ipcpSuggests]
  by_cases h1 : citype = ciAddrs
  · rw [if_pos h1, haddrs h1]
    rfl
  rw [if_neg h1]
  by_cases h2 : citype = ciAddr
  · rw [if_pos h2, haddr h2]
    rfl
  rw [if_neg h2]
  by_cases h3 : citype = ciCompresstype ∧ cilen = cilenVj
  · rw [if_pos h3, hvj h3.2]
    rfl
  · rw [if_neg h3]

/-- The verdict leaves an option as long as it is. -/
theorem ipcpVerdict_length (hlen : cilen.toNat = body.length + 2) :
    (ipcpVerdict wo ao reject go ho citype cilen body).2.1.length = body.length := by
  rw [ipcpVerdict_eq hlen]
  cases hrefuse : ipcpRefuses ao citype cilen body with
  | true => rfl
  | false =>
      cases reject with
      | true => rfl
      | false => exact ipcpSuggests_length hlen hrefuse

end

end VxWorks.Ppp
