import Mathlib.Tactic.Common
import VxWorks.Ppp.ReqRecorded

/-!
# The options of a request, judged one by one (`lcp.c`, `ipcp.c`)

Every option of a request gets a verdict: it is acceptable, its value is not, or it is not
to be had at all. When we are fed up, what we disagree with is treated as the last kind,
and that gives the sentence. The answer to the request is the worst sentence, and the reply
is made of the options that the answer is about, and of no others.

Here the verdicts are a list, and the loops of `lcp_reqci` and `ipcp_reqci` are what is
read off it.
-/

namespace VxWorks.Ppp

open VxWorks.Lib

/-- An option and the verdict on it. -/
abbrev Judged : Type := ReqCi × ConfCode

def ConfCode.worst : ConfCode → ConfCode → ConfCode
  | .rej, _ => .rej
  | _, .rej => .rej
  | .nak, _ => .nak
  | _, .nak => .nak
  | .ack, .ack => .ack

theorem ConfCode.worst_assoc (a b c : ConfCode) : (a.worst b).worst c = a.worst (b.worst c) := by
  cases a <;> cases b <;> cases c <;> rfl

theorem ConfCode.worst_ack (a : ConfCode) : a.worst .ack = a := by
  cases a <;> rfl

/-- The answer to a request. -/
def answer (sentence : Judged → ConfCode) : List Judged → ConfCode
  | [] => .ack
  | j :: js => (sentence j).worst (answer sentence js)

section

variable {sentence : Judged → ConfCode}

theorem answer_concat (js : List Judged) (j : Judged) :
    answer sentence (js ++ [j]) = (answer sentence js).worst (sentence j) := by
  induction js with
  | nil =>
      show (sentence j).worst .ack = ConfCode.ack.worst (sentence j)
      cases sentence j <;> rfl
  | cons k js ih => rw [List.cons_append, answer, answer, ih, ConfCode.worst_assoc]

theorem answer_eq_rej {js : List Judged} :
    answer sentence js = .rej ↔ ∃ j ∈ js, sentence j = .rej := by
  induction js with
  | nil => simp [answer]
  | cons j js ih =>
      have hworst (a b : ConfCode) : a.worst b = .rej ↔ a = .rej ∨ b = .rej := by
        cases a <;> cases b <;> decide
      rw [answer, hworst, ih]
      simp

theorem answer_eq_ack {js : List Judged} :
    answer sentence js = .ack ↔ ∀ j ∈ js, sentence j = .ack := by
  induction js with
  | nil => simp [answer]
  | cons j js ih =>
      have hworst (a b : ConfCode) : a.worst b = .ack ↔ a = .ack ∧ b = .ack := by
        cases a <;> cases b <;> decide
      rw [answer, hworst, ih]
      simp

theorem answer_nak {js : List Judged} (h : answer sentence js = .nak) :
    (∀ j ∈ js, sentence j ≠ .rej) ∧ ∃ j ∈ js, sentence j = .nak := by
  have hrej : ∀ j ∈ js, sentence j ≠ .rej := fun j hj hrej =>
    absurd (h.symm.trans (answer_eq_rej.mpr ⟨j, hj, hrej⟩)) (by decide)
  refine ⟨hrej, ?_⟩
  by_contra hnone
  simp only [not_exists, not_and] at hnone
  have hack : answer sentence js = .ack := by
    rw [answer_eq_ack]
    intro j hj
    cases hs : sentence j with
    | ack => rfl
    | nak => exact absurd hs (hnone j hj)
    | rej => exact absurd hs (hrej j hj)
  exact absurd (h.symm.trans hack) (by decide)

end

/-! ## The link -/

/-- The verdict on an option, given what is accepted so far: a second authentication
protocol is refused. -/
def lcpJudge (go ao his : LcpOptions) : ReqCi → ConfCode
  | .opt citype cilen body =>
      if lcpRefuses go ao his citype cilen body then .rej
      else if lcpDisagrees go ao citype body then .nak
      else .ack
  | .tail _ => .rej

def lcpJudged (go ao : LcpOptions) : LcpOptions → List ReqCi → List Judged
  | _, [] => []
  | his, ci :: cis =>
      (ci, lcpJudge go ao his ci) ::
        lcpJudged go ao (if lcpJudge go ao his ci = .ack then his.takeCi ci else his) cis

/-- What is done about an option. A looped line is not a matter of being fed up. -/
def lcpSentence (rejectIfDisagree : Bool) : Judged → ConfCode
  | (.opt citype _ _, .nak) =>
      if rejectIfDisagree ∧ citype ≠ ciMagicnumber then .rej else .nak
  | (_, verdict) => verdict

theorem lcpSentence_rej (reject : Bool) {j : Judged} (h : j.2 = .rej) :
    lcpSentence reject j = .rej := by
  obtain ⟨ci, verdict⟩ := j
  obtain rfl : verdict = .rej := h
  cases ci <;> rfl

theorem lcpSentence_nak {reject : Bool} {j : Judged} (h : lcpSentence reject j = .nak) :
    j.2 = .nak := by
  obtain ⟨ci, verdict⟩ := j
  cases ci <;> cases verdict <;> simp_all [lcpSentence]

/-- What an option puts into the `nak_buffer`, also when it is rejected then. -/
def lcpSuggested (magic : Nat → UInt32) (ao : LcpOptions) (drawn : Nat) : Judged → List UInt8
  | (.opt citype _ _, .nak) => lcpSuggests magic ao drawn citype
  | _ => []

def lcpDrawn (drawn : Nat) : Judged → Nat
  | (.opt citype _ _, .nak) => if citype = ciMagicnumber then drawn + 1 else drawn
  | _ => drawn

/-- The `nak_buffer` behind the loop. -/
def lcpHints (magic : Nat → UInt32) (ao : LcpOptions) : Nat → List Judged → List UInt8
  | _, [] => []
  | drawn, j :: js => lcpSuggested magic ao drawn j ++ lcpHints magic ao (lcpDrawn drawn j) js

/-- The octets that are moved for an option that is rejected. -/
def lcpMoved : ReqCi → List UInt8
  | .opt citype cilen body => citype :: cilen :: body
  | .tail octets => octets.take (octets.length % 256)

/-- What is moved to the front of the packet. -/
def lcpRejected (reject : Bool) (js : List Judged) : List UInt8 :=
  (js.filter (lcpSentence reject · == .rej)).flatMap (lcpMoved ·.1)

section

variable (magic : Nat → UInt32) (go ao : LcpOptions) (reject : Bool)

theorem lcpRejected_cons (j : Judged) (js : List Judged) :
    lcpRejected reject (j :: js) =
      (if lcpSentence reject j = .rej then lcpMoved j.1 else []) ++ lcpRejected reject js := by
  unfold lcpRejected
  rw [List.filter_cons]
  split_ifs with h1 h2 h2 <;> simp_all

/-- A round of `lcp_reqci`, by the verdict. -/
theorem lcpReqRound_judged (r : LcpReq) (ci : ReqCi) :
    let j := (ci, lcpJudge go ao r.his ci)
    lcpReqRound magic go ao reject r ci =
      { his := if lcpJudge go ao r.his ci = .ack then r.his.takeCi ci else r.his
        nak := r.nak ++ lcpSuggested magic ao r.drawn j
        rej := r.rej ++ if lcpSentence reject j = .rej then lcpMoved ci else []
        rc := r.rc.worst (lcpSentence reject j)
        drawn := lcpDrawn r.drawn j } := by
  cases ci with
  | tail octets =>
      show { r with rc := .rej, rej := r.rej ++ _ } = _
      cases r.rc <;> simp [lcpJudge, lcpSuggested, lcpSentence, lcpMoved, lcpDrawn, ConfCode.worst]
  | opt citype cilen body =>
      rw [lcpReqRound_eq, lcpJudge]
      cases lcpRefuses go ao r.his citype cilen body with
      | true =>
          cases r.rc <;> simp [lcpSuggested, lcpSentence, lcpMoved, lcpDrawn, ConfCode.worst]
      | false =>
          cases lcpDisagrees go ao citype body with
          | true =>
              by_cases htough : reject = true ∧ citype ≠ ciMagicnumber
              · cases r.rc <;>
                  simp [lcpSuggested, lcpSentence, lcpMoved, lcpDrawn, ConfCode.worst, htough]
              · cases r.rc <;> simp [lcpSuggested, lcpSentence, lcpDrawn, ConfCode.worst, htough]
          | false =>
              cases r.rc <;>
                simp [lcpSuggested, lcpSentence, lcpDrawn, ConfCode.worst, LcpOptions.takeCi]

/-- The loop of `lcp_reqci`. -/
theorem lcpReqFold_eq (cis : List ReqCi) (r : LcpReq) :
    let r' := cis.foldl (lcpReqRound magic go ao reject) r
    let js := lcpJudged go ao r.his cis
    r'.nak = r.nak ++ lcpHints magic ao r.drawn js ∧
      r'.rej = r.rej ++ lcpRejected reject js ∧
      r'.rc = r.rc.worst (answer (lcpSentence reject) js) := by
  induction cis generalizing r with
  | nil => simp [lcpJudged, lcpHints, lcpRejected, answer, ConfCode.worst_ack]
  | cons ci cis ih =>
      obtain ⟨hnak, hrej, hrc⟩ := ih (lcpReqRound magic go ao reject r ci)
      rw [lcpReqRound_judged] at hnak hrej hrc
      rw [List.foldl_cons, lcpReqRound_judged]
      refine ⟨?_, ?_, ?_⟩
      · rw [hnak, List.append_assoc]
        rfl
      · rw [hrej, lcpJudged, lcpRejected_cons, List.append_assoc]
      · rw [hrc, ConfCode.worst_assoc]
        rfl

end

/-- `lcp_reqci` on the packet, with what it leaves in the `nak_buffer`. -/
theorem lcpReqciAt_judged (magic : Nat → UInt32) (o : Lcp) (inp : Buf) (len : Nat)
    (reject : Bool) :
    let js := lcpJudged o.got o.allow LcpOptions.zero (cisAt inp len)
    let a := lcpReqciAt magic o inp len reject
    a.1.rc = answer (lcpSentence reject) js ∧
      a.2.1.r.nak = lcpHints magic o.allow o.drawn js ∧
      (a.1.rc = .nak → a.1.data = lcpHints magic o.allow o.drawn js) ∧
      (a.1.rc = .rej → a.1.data = lcpRejected reject js) := by
  intro js a
  let r := (cisAt inp len).foldl (lcpReqRound magic o.got o.allow reject)
    { his := LcpOptions.zero, nak := [], rej := [], rc := .ack, drawn := o.drawn }
  obtain ⟨hnak, hrej, hrc⟩ : r.nak = lcpHints magic o.allow o.drawn js ∧
      r.rej = lcpRejected reject js ∧ r.rc = ConfCode.ack.worst (answer (lcpSentence reject) js) :=
    lcpReqFold_eq magic o.got o.allow reject (cisAt inp len) _
  have heq := lcpReqciAt_eq magic o inp len reject
  have hoctets := lcpReqci_octets magic o (inp.take len) reject
  rw [← congrArg Prod.fst heq, ← congrArg (·.2.1) heq, Buf.length_take] at hoctets
  simp only [lcpReqci, Buf.length_take] at heq
  have hfst : a.1.rc = r.rc := congrArg Prod.fst heq
  have hbuf : r = a.2.1.abs := by
    show (reqCis len (inp.take len)).foldl _ _ = _
    rw [← Buf.slice_zero_eq_take]
    exact (@lcpReqLoop_eq magic o.got o.allow reject len (lcpReqStart o inp len) (Nat.le_refl _)
      (.inl (Nat.le_refl _))).1.symm
  refine ⟨?_, ?_, ?_, ?_⟩
  · rw [hfst, hrc]
    cases answer (lcpSentence reject) js <;> rfl
  · rw [← hnak, hbuf]
    rfl
  · intro h
    rw [show a.1.rc = .nak from h] at hoctets
    exact hoctets.trans hnak
  · intro h
    rw [show a.1.rc = .rej from h] at hoctets
    exact hoctets.trans hrej

/-! ## The network layer -/

def ipcpJudge (wo ao : IpcpOptions) : ReqCi → ConfCode
  | .opt citype cilen body =>
      if ipcpRefuses ao citype cilen body then .rej
      else if ipcpDisagrees wo ao citype cilen body then .nak
      else .ack
  | .tail _ => .rej

def ipcpJudged (wo ao : IpcpOptions) (cis : List ReqCi) : List Judged :=
  cis.map fun ci => (ci, ipcpJudge wo ao ci)

def ipcpSentence (rejectIfDisagree : Bool) : Judged → ConfCode
  | (_, .nak) => if rejectIfDisagree then .rej else .nak
  | (_, verdict) => verdict

theorem ipcpSentence_rej (reject : Bool) {j : Judged} (h : j.2 = .rej) :
    ipcpSentence reject j = .rej := by
  obtain ⟨ci, verdict⟩ := j
  obtain rfl : verdict = .rej := h
  rfl

theorem ipcpSentence_nak {reject : Bool} {j : Judged} (h : ipcpSentence reject j = .nak) :
    reject = false ∧ j.2 = .nak := by
  obtain ⟨ci, verdict⟩ := j
  cases reject <;> cases verdict <;> simp_all [ipcpSentence]

theorem ipcpSentence_false (j : Judged) : ipcpSentence false j = j.2 := by
  obtain ⟨ci, verdict⟩ := j
  cases verdict <;> rfl

/-- An option with the value we would have, `cflag` for a slot-ID flag that is too much. -/
def ipcpHint (wo ao : IpcpOptions) (cflag : UInt8) : ReqCi → ReqCi
  | .opt citype cilen body => .opt citype cilen (ipcpSuggests wo ao cflag citype cilen body)
  | .tail octets => .tail octets

/-- The reply as it stands in the packet. -/
def ipcpReply (wo ao : IpcpOptions) (reject : Bool) (js : List Judged) : ConfCode → List UInt8
  | .ack => js.flatMap (·.1.octets)
  | .nak => (js.filter (ipcpSentence reject · == .nak)).flatMap
      fun j => (ipcpHint wo ao wo.cflag j.1).octets
  | .rej => (js.filter (ipcpSentence reject · == .rej)).flatMap (·.1.octets)

section

variable {wo ao : IpcpOptions} {reject : Bool}

theorem ipcpJudged_concat (cis : List ReqCi) (ci : ReqCi) :
    ipcpJudged wo ao (cis ++ [ci]) = ipcpJudged wo ao cis ++ [(ci, ipcpJudge wo ao ci)] :=
  List.map_append

/-- A round of `ipcp_reqci`, by the verdict. -/
theorem ipcpReqRound_judged (r : IpcpReq) {ci : ReqCi} (hwf : ci.WellFormed) :
    ((ipcpReqRound wo ao reject r ci).rc, (ipcpReqRound wo ao reject r ci).out) =
      match ipcpSentence reject (ci, ipcpJudge wo ao ci), r.rc with
      | .ack, .ack => (.ack, r.out ++ ci.octets)
      | .ack, rc => (rc, r.out)
      | .nak, .rej => (.rej, r.out)
      | .nak, .nak => (.nak, r.out ++ (ipcpHint wo ao wo.cflag ci).octets)
      | .nak, .ack => (.nak, (ipcpHint wo ao wo.cflag ci).octets)
      | .rej, .rej => (.rej, r.out ++ ci.octets)
      | .rej, _ => (.rej, ci.octets) := by
  obtain ⟨go, ho, out, rc⟩ := r
  cases ci with
  | tail octets => cases rc <;> rfl
  | opt citype cilen body =>
      rw [ipcpReqRound_eq hwf, ipcpJudge]
      cases hrefuse : ipcpRefuses ao citype cilen body with
      | true => cases rc <;> rfl
      | false =>
          cases hdis : ipcpDisagrees wo ao citype cilen body with
          | true => cases reject <;> cases rc <;> rfl
          | false =>
              rw [ipcpSuggests_of_agreed hwf hrefuse hdis, ite_self]
              cases rc <;> rfl

/-- What a further option makes of the reply. -/
theorem ipcpReply_concat (js : List Judged) (j : Judged) :
    (answer (ipcpSentence reject) (js ++ [j]),
        ipcpReply wo ao reject (js ++ [j]) (answer (ipcpSentence reject) (js ++ [j]))) =
      match ipcpSentence reject j, answer (ipcpSentence reject) js with
      | .ack, .ack => (.ack, ipcpReply wo ao reject js .ack ++ j.1.octets)
      | .ack, rc => (rc, ipcpReply wo ao reject js rc)
      | .nak, .rej => (.rej, ipcpReply wo ao reject js .rej)
      | .nak, .nak =>
          (.nak, ipcpReply wo ao reject js .nak ++ (ipcpHint wo ao wo.cflag j.1).octets)
      | .nak, .ack => (.nak, (ipcpHint wo ao wo.cflag j.1).octets)
      | .rej, .rej => (.rej, ipcpReply wo ao reject js .rej ++ j.1.octets)
      | .rej, _ => (.rej, j.1.octets) := by
  have hnone {c : ConfCode} (h : ∀ k ∈ js, ipcpSentence reject k ≠ c) :
      js.filter (ipcpSentence reject · == c) = [] := by
    simpa [List.filter_eq_nil_iff] using h
  rw [answer_concat]
  cases hj : ipcpSentence reject j with
  | ack =>
      cases hjs : answer (ipcpSentence reject) js <;>
        simp [ConfCode.worst, ipcpReply, List.filter_append, hj]
  | nak =>
      cases hjs : answer (ipcpSentence reject) js with
      | ack =>
          have hall := answer_eq_ack.mp hjs
          have hnil : js.filter (ipcpSentence reject · == .nak) = [] :=
            hnone fun k hk h => absurd ((hall k hk).symm.trans h) (by decide)
          simp [ConfCode.worst, ipcpReply, List.filter_append, hj, hnil]
      | nak => simp [ConfCode.worst, ipcpReply, List.filter_append, hj]
      | rej => simp [ConfCode.worst, ipcpReply, List.filter_append, hj]
  | rej =>
      have hnot (h : answer (ipcpSentence reject) js ≠ .rej) :
          js.filter (ipcpSentence reject · == .rej) = [] :=
        hnone fun k hk hrej => h (answer_eq_rej.mpr ⟨k, hk, hrej⟩)
      cases hjs : answer (ipcpSentence reject) js with
      | ack => simp [ConfCode.worst, ipcpReply, List.filter_append, hj, hnot (by rw [hjs]; decide)]
      | nak => simp [ConfCode.worst, ipcpReply, List.filter_append, hj, hnot (by rw [hjs]; decide)]
      | rej => simp [ConfCode.worst, ipcpReply, List.filter_append, hj]

/-- The loop of `ipcp_reqci`. -/
theorem ipcpReqFold_eq {cis : List ReqCi} (hwf : ∀ ci ∈ cis, ci.WellFormed) (go ho : IpcpOptions) :
    let r := cis.foldl (ipcpReqRound wo ao reject) ⟨go, ho, [], .ack⟩
    let js := ipcpJudged wo ao cis
    (r.rc, r.out) = (answer (ipcpSentence reject) js,
      ipcpReply wo ao reject js (answer (ipcpSentence reject) js)) := by
  induction cis using List.reverseRecOn with
  | nil => rfl
  | append_singleton cis ci ih =>
      have hprev := Prod.mk.injEq .. ▸ ih fun ci' h => hwf ci' (by simp [h])
      dsimp only
      rw [List.foldl_concat, ipcpJudged_concat, ipcpReply_concat,
        ipcpReqRound_judged _ (hwf ci (by simp)), hprev.1, hprev.2]
      cases ipcpSentence reject (ci, ipcpJudge wo ao ci) <;>
        cases answer (ipcpSentence reject) (ipcpJudged wo ao cis) <;> rfl

/-- The peer has sent its address, in an option that is not refused. -/
def namesAddr (js : List Judged) : Bool := js.any fun j => j.2 != .rej && j.1.hisaddr.isSome

theorem take_negAddr {ho : IpcpOptions} {citype cilen : UInt8} {body : List UInt8} :
    (IpcpOptions.take wo ho citype cilen body).negAddr =
      (ho.negAddr || (ReqCi.opt citype cilen body).hisaddr.isSome) := by
  unfold IpcpOptions.take ReqCi.hisaddr
  by_cases haddrs : citype = ciAddrs
  · simp [haddrs]
  by_cases haddr : citype = ciAddr
  · simp [haddr, ciAddr, ciAddrs]
  · simp only [haddrs, haddr, if_false, or_self, Option.isSome_none, Bool.or_false]
    split_ifs <;> rfl

theorem ipcpReqDispose_ho (orc : ConfCode) (cip : List UInt8) (r : IpcpReq) :
    (ipcpReqDispose reject orc cip r).ho = r.ho := by
  unfold ipcpReqDispose
  split <;> rfl

theorem ipcpReqFold_negAddr {cis : List ReqCi} (hwf : ∀ ci ∈ cis, ci.WellFormed) (r : IpcpReq) :
    (cis.foldl (ipcpReqRound wo ao reject) r).ho.negAddr =
      (r.ho.negAddr || namesAddr (ipcpJudged wo ao cis)) := by
  induction cis using List.reverseRecOn with
  | nil => simp [ipcpJudged, namesAddr]
  | append_singleton cis ci ih =>
      have hstep : ∀ r : IpcpReq, (ipcpReqRound wo ao reject r ci).ho.negAddr =
          (r.ho.negAddr || (ipcpJudge wo ao ci != .rej && ci.hisaddr.isSome)) := by
        intro r
        cases ci with
        | tail octets => simp [ipcpReqRound, ipcpReqDispose_ho, ipcpJudge]
        | opt citype cilen body =>
            have hlen : cilen.toNat = body.length + 2 := hwf (.opt citype cilen body) (by simp)
            rw [ipcpReqRound_eq hlen, ipcpJudge]
            cases ipcpRefuses ao citype cilen body with
            | true => simp [ipcpReqDispose_ho]
            | false =>
                rw [if_neg (by simp), ipcpReqDispose_ho, take_negAddr]
                cases ipcpDisagrees wo ao citype cilen body <;> rfl
      rw [List.foldl_concat, hstep, ih fun ci' h => hwf ci' (by simp [h]), ipcpJudged_concat]
      simp [namesAddr, Bool.or_assoc]

/-- A request that is not rejected and does not have the peer's address is answered by a
question for it. -/
def ipcpAsks (wo : IpcpOptions) (rejectIfDisagree : Bool) (js : List Judged) : Bool :=
  answer (ipcpSentence rejectIfDisagree) js != .rej && !namesAddr js && wo.reqAddr &&
    !rejectIfDisagree

/-- `ipcp_reqci` on the packet. -/
theorem ipcpReqciAt_judged (o : Ipcp) (inp : Buf) (len : Nat) (reject : Bool) :
    let js := ipcpJudged o.want o.allow (cisAt inp len)
    let a := ipcpReqciAt o inp len reject
    a.1.rc = (if ipcpAsks o.want reject js ∧ answer (ipcpSentence reject) js = .ack then .nak
      else answer (ipcpSentence reject) js) ∧
    (a.1.rc = .nak → a.1.data = ipcpReply o.want o.allow reject js .nak ++
      if ipcpAsks o.want reject js then (ciOneAddr ciAddr).put o.want.hisaddr else []) ∧
    (a.1.rc = .rej → a.1.data = ipcpReply o.want o.allow reject js .rej) := by
  intro js a
  let r := (cisAt inp len).foldl (ipcpReqRound o.want o.allow reject)
    { go := o.got, ho := IpcpOptions.zero, out := [], rc := .ack }
  have hfold : (r.rc, r.out) = (answer (ipcpSentence reject) js,
      ipcpReply o.want o.allow reject js (answer (ipcpSentence reject) js)) :=
    ipcpReqFold_eq reqCis_wellFormed _ _
  have hnames : r.ho.negAddr = namesAddr js :=
    (ipcpReqFold_negAddr reqCis_wellFormed _).trans (Bool.false_or _)
  obtain ⟨hrc, hout⟩ : r.rc = answer (ipcpSentence reject) js ∧
      r.out = ipcpReply o.want o.allow reject js (answer (ipcpSentence reject) js) :=
    Prod.mk.injEq .. ▸ hfold
  have heq := ipcpReqciAt_eq o inp len reject
  simp only [ipcpReqci, Buf.length_take] at heq
  have hfst : a.1.rc = (ipcpReqAsk o.want reject r).1.rc := congrArg Prod.fst heq
  have hdata : a.1.data = (ipcpReqAsk o.want reject r).1.out := congrArg (·.2.1) heq
  have hasks : (r.rc ≠ .rej ∧ (!r.ho.negAddr) = true ∧ o.want.reqAddr = true ∧
      (!reject) = true) ↔ ipcpAsks o.want reject js = true := by
    rw [hrc, hnames]
    simp [ipcpAsks, and_assoc]
  rw [hfst, hdata]
  rw [ipcpReqAsk]
  simp only [hasks]
  cases hask : ipcpAsks o.want reject js with
  | false =>
      simp only [Bool.false_eq_true, if_false, false_and, List.append_nil]
      exact ⟨hrc, fun h => by rw [hout, ← hrc, h], fun h => by rw [hout, ← hrc, h]⟩
  | true =>
      have hnot : answer (ipcpSentence reject) js ≠ .rej := hrc ▸ (hasks.mpr hask).1
      by_cases hack : r.rc = .ack
      · have hall := answer_eq_ack.mp (hrc.symm.trans hack)
        have hnil : ipcpReply o.want o.allow reject js .nak = [] := by
          have hfilter : js.filter (ipcpSentence reject · == .nak) = [] := by
            rw [List.filter_eq_nil_iff]
            intro j hj
            simp [hall j hj]
          simp [ipcpReply, hfilter]
        simp [hack, ← hrc, hnil]
      · have hnak : r.rc = .nak := by
          cases h : r.rc with
          | ack => exact absurd h hack
          | nak => rfl
          | rej => exact absurd (hrc.symm.trans h) hnot
        simp [hnak, ← hrc, hout]

end

end VxWorks.Ppp
