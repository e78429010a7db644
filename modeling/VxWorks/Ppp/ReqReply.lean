import Mathlib.Data.List.Forall2
import Mathlib.Tactic.Common
import VxWorks.Ppp.ReqJudged

/-!
# What a Nak and a Reject say (`lcp.c`, `ipcp.c`)

A Configure-Nak names the options whose values we would have otherwise, each with the value
we would have. `lcp_reqci` puts it together in a buffer of its own, but the suggestions for
the MRU and the asyncmap it writes into the request, where nobody reads them again, so that
these two are missing from the Nak. In `ipcp_reqci` all is in its place, but the slot-ID
flag we suggest to a peer that is not allowed to compress slot IDs is the one we want
ourselves.

A Configure-Reject is the options that are to be rejected, as they came.
-/

namespace VxWorks.Ppp

open VxWorks.Lib

/-! ## The Nak of LCP -/

/-- An option with a value that is acceptable: the least MRU, the characters we need, the
authentication we prefer, a fresh magic number. -/
def lcpHint (ao : LcpOptions) (fresh : UInt32) : ReqCi → ReqCi
  | .opt citype cilen body =>
      if citype = ciMru then .opt ciMru cilenShort (put16 minmru)
      else if citype = ciAsyncmap then
        .opt ciAsyncmap cilenLong (put32 (ao.asyncmap ||| longAt body))
      else if citype = ciAuthtype then
        if ao.negChap then .opt ciAuthtype cilenChap (put16 chapProto ++ [ao.chapMdtype])
        else .opt ciAuthtype cilenShort (put16 upapProto)
      else if citype = ciQuality then
        .opt ciQuality cilenLqr (put16 lqrProto ++ put32 ao.lqrPeriod)
      else if citype = ciMagicnumber then .opt ciMagicnumber cilenLong (put32 fresh)
      else .opt citype cilen body
  | .tail octets => .tail octets

/-- The reply is a list of options, one for each that was Nak'd and no others, with an
acceptable value in it. -/
def LcpNakOf (magic : Nat → UInt32) (ao : LcpOptions) (js : List Judged) (data : List UInt8) :
    Prop :=
  data ≠ [] ∧ List.Forall₂ (fun j hint => ∃ n, hint = lcpHint ao (magic n) j.1)
    (js.filter (·.2 == .nak)) (reqCis data.length data)

/-- The types whose Nak is written into the request. -/
def ReqCi.silent (ci : ReqCi) : Bool := ci.hasType ciMru || ci.hasType ciAsyncmap

/-- The options in the `nak_buffer`. -/
def lcpHintCis (magic : Nat → UInt32) (ao : LcpOptions) : Nat → List Judged → List ReqCi
  | _, [] => []
  | drawn, j :: js =>
      (if j.2 = .nak ∧ j.1.silent = false then [lcpHint ao (magic drawn) j.1] else []) ++
        lcpHintCis magic ao (lcpDrawn drawn j) js

section

variable {magic : Nat → UInt32} {go ao his : LcpOptions} {cis : List ReqCi}

/-- Only options of five types have a value to disagree with. -/
theorem disagrees_type {citype : UInt8} {body : List UInt8}
    (h : lcpDisagrees go ao citype body = true) :
    citype = ciMru ∨ citype = ciAsyncmap ∨ citype = ciAuthtype ∨ citype = ciQuality ∨
      citype = ciMagicnumber := by
  by_contra hnot
  simp only [not_or] at hnot
  simp [lcpDisagrees, hnot] at h

theorem mem_lcpJudged {j : Judged} (h : j ∈ lcpJudged go ao his cis) :
    ∃ his', j.1 ∈ cis ∧ j.2 = lcpJudge go ao his' j.1 := by
  induction cis generalizing his with
  | nil => cases h
  | cons ci cis ih =>
      rw [lcpJudged] at h
      rcases List.mem_cons.mp h with rfl | h
      · exact ⟨his, by simp, rfl⟩
      · obtain ⟨his', hmem, hj⟩ := ih h
        exact ⟨his', by simp [hmem], hj⟩

/-- A verdict of `CONFNAK` is about a value we disagree with. -/
def WellJudged (go ao : LcpOptions) (j : Judged) : Prop :=
  j.2 = .nak → ∃ citype cilen body, j.1 = .opt citype cilen body ∧
    lcpDisagrees go ao citype body = true

theorem lcpJudged_wellJudged : ∀ j ∈ lcpJudged go ao his cis, WellJudged go ao j := by
  rintro ⟨ci, verdict⟩ hj hnak
  obtain ⟨his', _, hverdict⟩ := mem_lcpJudged hj
  have h : lcpJudge go ao his' ci = .nak := hverdict.symm.trans hnak
  cases ci with
  | tail octets => cases h
  | opt citype cilen body =>
      refine ⟨citype, cilen, body, rfl, ?_⟩
      by_contra hnot
      rw [lcpJudge] at h
      split_ifs at h

/-- What an option puts into the `nak_buffer` is the option that is suggested. -/
theorem lcpSuggested_eq {j : Judged} {drawn : Nat} (hj : WellJudged go ao j) :
    lcpSuggested magic ao drawn j =
      (if j.2 = .nak ∧ j.1.silent = false then [lcpHint ao (magic drawn) j.1] else []).flatMap
        ReqCi.octets := by
  obtain ⟨ci, verdict⟩ := j
  by_cases hnak : verdict = .nak
  · subst hnak
    obtain ⟨citype, cilen, body, rfl, hdis⟩ := hj rfl
    rcases disagrees_type hdis with rfl | rfl | rfl | rfl | rfl
    · rfl
    · rfl
    · cases hchap : ao.negChap <;>
        simp [lcpSuggested, lcpSuggests, lcpHint, ReqCi.silent, ReqCi.hasType, hchap, ciAuthtype,
          ciMru, ciAsyncmap] <;> rfl
    · rfl
    · rfl
  · cases ci <;> cases verdict <;> simp_all [lcpSuggested]

theorem lcpHints_eq {js : List Judged} {drawn : Nat} (hjs : ∀ j ∈ js, WellJudged go ao j) :
    lcpHints magic ao drawn js = (lcpHintCis magic ao drawn js).flatMap ReqCi.octets := by
  induction js generalizing drawn with
  | nil => rfl
  | cons j js ih =>
      rw [lcpHints, lcpHintCis, List.flatMap_append, lcpSuggested_eq (hjs j (by simp)),
        ih fun k hk => hjs k (by simp [hk])]

theorem lcpHint_whole {fresh citype cilen body} (hdis : lcpDisagrees go ao citype body = true) :
    (lcpHint ao fresh (.opt citype cilen body)).Whole := by
  rcases disagrees_type hdis with rfl | rfl | rfl | rfl | rfl
  · rfl
  · rfl
  · cases hchap : ao.negChap <;>
      simp [lcpHint, hchap, ciAuthtype, ciMru, ciAsyncmap, ReqCi.Whole] <;> rfl
  · rfl
  · rfl

theorem lcpHintCis_whole {js : List Judged} {drawn : Nat} (hjs : ∀ j ∈ js, WellJudged go ao j) :
    ∀ ci ∈ lcpHintCis magic ao drawn js, ci.Whole := by
  induction js generalizing drawn with
  | nil => nofun
  | cons j js ih =>
      intro ci hci
      rw [lcpHintCis, List.mem_append] at hci
      rcases hci with hci | hci
      · split_ifs at hci with hsaid
        · obtain rfl := List.mem_singleton.mp hci
          obtain ⟨citype, cilen, body, heq, hdis⟩ := hjs j (by simp) hsaid.1
          rw [heq]
          exact lcpHint_whole hdis
        · cases hci
      · exact ih (fun k hk => hjs k (by simp [hk])) ci hci

/-- The Nak is complete if nothing in it is left out. -/
theorem forall₂_lcpHintCis {js : List Judged} {drawn : Nat} :
    List.Forall₂ (fun j hint => ∃ n, hint = lcpHint ao (magic n) j.1)
        (js.filter (·.2 == .nak)) (lcpHintCis magic ao drawn js) ↔
      ∀ j ∈ js, j.2 = .nak → j.1.silent = false := by
  constructor
  · intro h
    have hlen (drawn : Nat) : (lcpHintCis magic ao drawn js).length =
        (js.filter fun j => j.2 == .nak && !j.1.silent).length := by
      clear h
      induction js generalizing drawn with
      | nil => rfl
      | cons j js ih =>
          rw [lcpHintCis, List.length_append, ih, List.filter_cons]
          split_ifs with h1 h2 h2 <;> simp_all [Nat.add_comm]
    have hsub : (js.filter fun j => j.2 == .nak && !j.1.silent).Sublist
        (js.filter (·.2 == .nak)) :=
      List.monotone_filter_right _ fun j hj => (Bool.and_eq_true_iff.mp hj).1
    have heq := hsub.eq_of_length (by rw [h.length_eq, hlen])
    intro j hj hnak
    have hmem : j ∈ js.filter fun j => j.2 == .nak && !j.1.silent := by
      rw [heq, List.mem_filter]
      exact ⟨hj, by simp [hnak]⟩
    simpa [hnak] using (List.mem_filter.mp hmem).2
  · intro h
    induction js generalizing drawn with
    | nil => exact .nil
    | cons j js ih =>
        have hrest := @ih (lcpDrawn drawn j) fun k hk => h k (by simp [hk])
        rw [lcpHintCis, List.filter_cons]
        by_cases hnak : j.2 = .nak
        · rw [if_pos (by simp [hnak]), if_pos ⟨hnak, h j (by simp) hnak⟩]
          exact .cons ⟨drawn, rfl⟩ hrest
        · rw [if_neg (by simp [hnak]), if_neg fun hsaid => hnak hsaid.1]
          exact hrest

theorem map_fst_lcpJudged : (lcpJudged go ao his cis).map Prod.fst = cis := by
  induction cis generalizing his with
  | nil => rfl
  | cons ci cis ih => rw [lcpJudged, List.map_cons, ih]

/-- When nothing is rejected, what is Nak'd is what we disagree with. -/
theorem silent_iff (hrej : ∀ j ∈ lcpJudged go ao his cis, j.2 ≠ .rej) :
    (∀ j ∈ lcpJudged go ao his cis, j.2 = .nak → j.1.silent = false) ↔
      ∀ cilen body, (ReqCi.opt ciMru cilen body ∈ cis → minmru ≤ shortAt body) ∧
        (ReqCi.opt ciAsyncmap cilen body ∈ cis → ao.asyncmap &&& ~~~ (longAt body) = 0) := by
  constructor
  · intro h cilen body
    have hagree (citype : UInt8) (hmem : ReqCi.opt citype cilen body ∈ cis)
        (hsilent : (ReqCi.opt citype cilen body).silent = true) :
        lcpDisagrees go ao citype body = false := by
      rw [← @map_fst_lcpJudged go ao his cis] at hmem
      obtain ⟨⟨ci, verdict⟩, hj, rfl⟩ := List.mem_map.mp hmem
      obtain ⟨his', _, hverdict⟩ := mem_lcpJudged hj
      have hnot : verdict ≠ .nak := fun hnak =>
        absurd (hsilent.symm.trans (h _ hj hnak)) (by decide)
      rw [lcpJudge] at hverdict
      split_ifs at hverdict with hrefuse hdis
      · exact absurd hverdict (hrej _ hj)
      · exact absurd hverdict hnot
      · exact Bool.not_eq_true _ ▸ hdis
    constructor
    · intro hmem
      simpa [lcpDisagrees] using hagree ciMru hmem rfl
    · intro hmem
      simpa [lcpDisagrees, ciMru, ciAsyncmap] using hagree ciAsyncmap hmem rfl
  · intro h j hj hnak
    obtain ⟨citype, cilen, body, hci, hdis⟩ := lcpJudged_wellJudged j hj hnak
    obtain ⟨_, hmem, _⟩ := mem_lcpJudged hj
    rw [hci] at hmem ⊢
    by_contra hsilent
    simp only [ReqCi.silent, ReqCi.hasType, Bool.not_eq_false, Bool.or_eq_true,
      beq_iff_eq] at hsilent
    rcases hsilent with rfl | rfl
    · have hle := (h cilen body).1 hmem
      simp only [lcpDisagrees, if_true, decide_eq_true_eq] at hdis
      exact absurd hdis (UInt16.not_lt.mpr hle)
    · have hzero := (h cilen body).2 hmem
      simp [lcpDisagrees, ciMru, ciAsyncmap, hzero] at hdis

/-- The Nak of `lcp_reqci`. -/
theorem lcp_nak_iff {o : Lcp} {inp : Buf} {len : Nat} {reject : Bool}
    (hrc : (lcpReqciAt magic o inp len reject).1.rc = .nak) :
    LcpNakOf magic o.allow (lcpJudged o.got o.allow LcpOptions.zero (cisAt inp len))
        (lcpReqciAt magic o inp len reject).1.data ↔
      ∀ cilen body, (ReqCi.opt ciMru cilen body ∈ cisAt inp len → minmru ≤ shortAt body) ∧
        (ReqCi.opt ciAsyncmap cilen body ∈ cisAt inp len →
          o.allow.asyncmap &&& ~~~ (longAt body) = 0) := by
  obtain ⟨hanswer, _, hdata, _⟩ := lcpReqciAt_judged magic o inp len reject
  generalize hjs : lcpJudged o.got o.allow LcpOptions.zero (cisAt inp len) = js at *
  obtain ⟨hkept, j, hj, hnak⟩ := answer_nak (hanswer.symm.trans hrc)
  have hwell : ∀ j ∈ js, WellJudged o.got o.allow j := hjs ▸ lcpJudged_wellJudged
  have hrej : ∀ j ∈ lcpJudged o.got o.allow LcpOptions.zero (cisAt inp len), j.2 ≠ .rej :=
    fun j hj h => hkept j (hjs ▸ hj) (lcpSentence_rej reject h)
  have hparse := reqCis_flatMap (@lcpHintCis_whole magic o.got o.allow js o.drawn hwell) le_rfl
  rw [hdata hrc, lcpHints_eq hwell, LcpNakOf, hparse, ← silent_iff hrej, hjs,
    ← @forall₂_lcpHintCis magic o.allow js o.drawn]
  refine and_iff_right_of_imp ?_
  intro hall hnil
  -- an empty reply has no options, and there is one at least that was Nak'd
  rw [hnil] at hparse
  rw [← hparse] at hall
  have hmem : j ∈ js.filter (·.2 == .nak) :=
    List.mem_filter.mpr ⟨hj, by simp [lcpSentence_nak hnak]⟩
  rw [List.forall₂_nil_right_iff.mp hall] at hmem
  cases hmem

theorem shortAt_put16 (v : UInt16) : shortAt (put16 v) = v := get16_put16 v

theorem shortAt_put16_append (v : UInt16) (rest : List UInt8) : shortAt (put16 v ++ rest) = v :=
  get16_put16 v

theorem longAt_put32 (v : UInt32) : longAt (put32 v) = v := get32_put32 v

/-- Characters that were added are there. -/
theorem and_not_or (x y : UInt32) : x &&& ~~~ (x ||| y) = 0 := by
  apply UInt32.eq_of_toBitVec_eq
  ext i
  simp only [UInt32.toBitVec_and, UInt32.toBitVec_not, UInt32.toBitVec_or, BitVec.getElem_and,
    BitVec.getElem_not, BitVec.getElem_or]
  cases x.toBitVec[i] <;> simp

/-- What is suggested is of the same type, and `lcp_reqci` itself would accept it, a magic
number if it is not ours by chance. -/
theorem lcpHint_acceptable {ci : ReqCi} {fresh : UInt32} (h : lcpJudge go ao his ci = .nak)
    (hfresh : ci.hasType ciMagicnumber = true → fresh ≠ go.magicnumber) :
    lcpJudge go ao LcpOptions.zero (lcpHint ao fresh ci) = .ack ∧
      ∀ t, (lcpHint ao fresh ci).hasType t = ci.hasType t := by
  cases ci with
  | tail octets => cases h
  | opt citype cilen body =>
      rw [lcpJudge] at h
      split_ifs at h with hrefuse hdis
      rw [Bool.not_eq_true] at hrefuse
      rcases disagrees_type hdis with rfl | rfl | rfl | rfl | rfl
      · have hneg : ao.negMru = true := (by simpa [lcpRefuses] using hrefuse : _ ∧ _).1
        have hmin : minmru ≤ shortAt (put16 minmru) := by decide
        refine ⟨?_, fun t => rfl⟩
        simp [lcpHint, lcpJudge, lcpRefuses, lcpDisagrees, hneg, hmin]
      · have hneg : ao.negAsyncmap = true :=
          (by simpa [lcpRefuses, ciMru, ciAsyncmap] using hrefuse : _ ∧ _).1
        refine ⟨?_, fun t => rfl⟩
        simp [lcpHint, lcpJudge, lcpRefuses, lcpDisagrees, hneg, ciMru, ciAsyncmap, longAt_put32,
          and_not_or]
      · refine ⟨?_, ?_⟩
        · cases hchap : ao.negChap with
          | true =>
              have hlen : ¬ cilenChap < cilenShort := by decide
              have hdigest : (put16 49699 ++ [ao.chapMdtype])[2] = ao.chapMdtype := rfl
              simp [lcpHint, lcpJudge, lcpRefuses, lcpDisagrees, hchap, hlen, hdigest, ciMru,
                ciAsyncmap, ciAuthtype, shortAt_put16_append, chapProto, upapProto, LcpOptions.zero]
          | false =>
              have hupap : ao.negUpap = true := by
                by_contra hnot
                simp [lcpRefuses, hchap, hnot, ciMru, ciAsyncmap, ciAuthtype] at hrefuse
              simp [lcpHint, lcpJudge, lcpRefuses, lcpDisagrees, hchap, hupap, ciMru, ciAsyncmap,
                ciAuthtype, shortAt_put16, LcpOptions.zero]
        · intro t
          cases hchap : ao.negChap <;> simp [lcpHint, hchap, ciMru, ciAsyncmap, ciAuthtype] <;> rfl
      · have hneg : ao.negLqr = true := by
          by_contra hnot
          simp [lcpRefuses, hnot, ciMru, ciAsyncmap, ciAuthtype, ciQuality] at hrefuse
        refine ⟨?_, fun t => rfl⟩
        simp [lcpHint, lcpJudge, lcpRefuses, lcpDisagrees, hneg, ciMru, ciAsyncmap, ciAuthtype,
          ciQuality, shortAt_put16_append]
      · have hneg : ao.negMagicnumber = false → go.negMagicnumber = true := by
          intro hallow
          by_contra hnot
          simp [lcpRefuses, hallow, hnot, ciMru, ciAsyncmap, ciAuthtype, ciQuality,
            ciMagicnumber] at hrefuse
        refine ⟨?_, fun t => rfl⟩
        simpa [lcpHint, lcpJudge, lcpRefuses, lcpDisagrees, ciMru, ciAsyncmap, ciAuthtype,
          ciQuality, ciMagicnumber, longAt_put32, hfresh rfl] using hneg

end

/-! ## The Nak of IPCP -/

/-- The reply is a list of options, those that were Nak'd with an acceptable value in each,
and at the end the question for the peer's address if it is due. -/
def IpcpNakOf (wo ao : IpcpOptions) (reject : Bool) (js : List Judged) (data : List UInt8) :
    Prop :=
  data ≠ [] ∧ reqCis data.length data =
    (js.filter (·.2 == .nak)).map (fun j => ipcpHint wo ao 0 j.1) ++
      if ipcpAsks wo reject js then [.opt ciAddr cilenAddr (put32 wo.hisaddr)] else []

section

variable {wo ao : IpcpOptions}

theorem ipcpHint_whole {cflag : UInt8} {ci : ReqCi} (hwf : ci.WellFormed)
    (h : ipcpJudge wo ao ci ≠ .rej) : (ipcpHint wo ao cflag ci).Whole := by
  cases ci with
  | tail octets => exact absurd rfl h
  | opt citype cilen body =>
      have hrefuse : ipcpRefuses ao citype cilen body = false := by
        by_contra hnot
        exact h (if_pos (Bool.not_eq_false _ ▸ hnot))
      show cilen.toNat = (ipcpSuggests wo ao cflag citype cilen body).length + 2
      rw [ipcpSuggests_length hwf hrefuse]
      exact hwf

/-- Another flag is suggested than the only one that is acceptable. -/
theorem ipcpHint_eq_iff {citype cilen : UInt8} {body : List UInt8} :
    ipcpHint wo ao wo.cflag (.opt citype cilen body) = ipcpHint wo ao 0 (.opt citype cilen body) ↔
      (citype = ciCompresstype → cilen = cilenVj → cflagWrong ao body = true → wo.cflag = 0) := by
  simp only [ipcpHint, ReqCi.opt.injEq, true_and]
  unfold ipcpSuggests
  by_cases haddrs : citype = ciAddrs
  · simp [haddrs, ciAddrs, ciCompresstype]
  by_cases haddr : citype = ciAddr
  · simp [haddr, ciAddr, ciAddrs, ciCompresstype]
  by_cases hvj : citype = ciCompresstype ∧ cilen = cilenVj
  · obtain ⟨rfl, rfl⟩ := hvj
    simp only [haddrs, haddr, if_false, and_self, if_true, forall_const]
    cases cflagWrong ao body <;> simp
  · simp only [haddrs, haddr, hvj, if_false, true_iff]
    exact fun h1 h2 => absurd ⟨h1, h2⟩ hvj

/-- A Nak of IPCP: nothing was to be rejected, and we were not fed up. -/
theorem ipcp_nak {o : Ipcp} {inp : Buf} {len : Nat} {reject : Bool}
    (hrc : (ipcpReqciAt o inp len reject).1.rc = .nak) :
    reject = false ∧ (∀ ci ∈ cisAt inp len, ipcpJudge o.want o.allow ci ≠ .rej) ∧
      ((∃ ci ∈ cisAt inp len, ipcpJudge o.want o.allow ci = .nak) ∨
        ipcpAsks o.want reject (ipcpJudged o.want o.allow (cisAt inp len)) = true) := by
  obtain ⟨hanswer, _, _⟩ := ipcpReqciAt_judged o inp len reject
  rw [hrc] at hanswer
  have hmem {j : Judged} (hj : j ∈ ipcpJudged o.want o.allow (cisAt inp len)) :
      j.1 ∈ cisAt inp len ∧ ipcpJudge o.want o.allow j.1 = j.2 := by
    obtain ⟨ci, hci, rfl⟩ := List.mem_map.mp hj
    exact ⟨hci, rfl⟩
  have hkept : answer (ipcpSentence reject) (ipcpJudged o.want o.allow (cisAt inp len)) ≠ .rej := by
    intro h
    rw [h] at hanswer
    simp at hanswer
  refine ⟨?_, ?_, ?_⟩
  · split_ifs at hanswer with hasks
    · simpa [ipcpAsks] using (Bool.and_eq_true_iff.mp hasks.1).2
    · obtain ⟨_, j, _, hnak⟩ := answer_nak hanswer.symm
      exact (ipcpSentence_nak hnak).1
  · intro ci hci hrej
    refine hkept (answer_eq_rej.mpr ⟨(ci, ipcpJudge o.want o.allow ci), ?_, ?_⟩)
    · exact List.mem_map.mpr ⟨ci, hci, rfl⟩
    · exact ipcpSentence_rej reject hrej
  · split_ifs at hanswer with hasks
    · exact .inr hasks.1
    · obtain ⟨_, j, hj, hnak⟩ := answer_nak hanswer.symm
      exact .inl ⟨j.1, (hmem hj).1, (hmem hj).2.trans (ipcpSentence_nak hnak).2⟩

/-- The Nak of `ipcp_reqci`. -/
theorem ipcp_nak_iff {o : Ipcp} {inp : Buf} {len : Nat} {reject : Bool}
    (hrc : (ipcpReqciAt o inp len reject).1.rc = .nak) :
    IpcpNakOf o.want o.allow reject (ipcpJudged o.want o.allow (cisAt inp len))
        (ipcpReqciAt o inp len reject).1.data ↔
      ∀ body, ReqCi.opt ciCompresstype cilenVj body ∈ cisAt inp len →
        cflagWrong o.allow body = true → o.want.cflag = 0 := by
  obtain ⟨rfl, hkept, hsome⟩ := ipcp_nak hrc
  have hdata := (ipcpReqciAt_judged o inp len false).2.1 hrc
  generalize hjs : ipcpJudged o.want o.allow (cisAt inp len) = js at *
  let ask : List ReqCi :=
    if ipcpAsks o.want false js then [.opt ciAddr cilenAddr (put32 o.want.hisaddr)] else []
  let hints := (js.filter (·.2 == .nak)).map fun j => ipcpHint o.want o.allow o.want.cflag j.1
  have hoctets : (ipcpReqciAt o inp len false).1.data = (hints ++ ask).flatMap ReqCi.octets := by
    rw [hdata, List.flatMap_append, List.flatMap_map]
    congr 1
    · simp only [ipcpReply, ipcpSentence_false]
    · show _ = List.flatMap _ (if _ then _ else _)
      split_ifs <;> rfl
  have hmem {j : Judged} : j ∈ js ↔ j.1 ∈ cisAt inp len ∧ ipcpJudge o.want o.allow j.1 = j.2 := by
    rw [← hjs, ipcpJudged, List.mem_map]
    constructor
    · rintro ⟨ci, hci, rfl⟩
      exact ⟨hci, rfl⟩
    · rintro ⟨hci, hj⟩
      exact ⟨j.1, hci, by rw [hj]⟩
  have hwhole : ∀ ci ∈ hints ++ ask, ci.Whole := by
    intro ci hci
    rcases List.mem_append.mp hci with hci | hci
    · obtain ⟨j, hj, rfl⟩ := List.mem_map.mp hci
      have hj := hmem.mp (List.mem_filter.mp hj).1
      exact ipcpHint_whole (reqCis_wellFormed _ hj.1) (hkept _ hj.1)
    · have hask : ci = .opt ciAddr cilenAddr (put32 o.want.hisaddr) := by
        simp only [ask] at hci
        split_ifs at hci
        · exact List.mem_singleton.mp hci
        · cases hci
      rw [hask]
      rfl
  have hparse := reqCis_flatMap hwhole le_rfl
  have hne : (hints ++ ask).flatMap ReqCi.octets ≠ [] := by
    intro hnil
    rw [hnil] at hparse
    obtain ⟨hhints, hask⟩ := List.append_eq_nil_iff.mp (hparse.symm.trans rfl)
    rcases hsome with ⟨ci, hci, hnak⟩ | hasks
    · have hj : (ci, ConfCode.nak) ∈ js.filter (·.2 == .nak) :=
        List.mem_filter.mpr ⟨hmem.mpr ⟨hci, hnak⟩, rfl⟩
      rw [List.map_eq_nil_iff.mp hhints] at hj
      cases hj
    · simp [ask, hasks] at hask
  rw [IpcpNakOf, hoctets, hparse, and_iff_right hne]
  show hints ++ ask = _ ++ ask ↔ _
  rw [List.append_left_inj, List.map_inj_left]
  constructor
  · intro h body hci hwrong
    have hnak : ipcpJudge o.want o.allow (.opt ciCompresstype cilenVj body) = .nak := by
      have hdis : ipcpDisagrees o.want o.allow ciCompresstype cilenVj body = true := by
        simp [ipcpDisagrees, hwrong, ciCompresstype, ciAddrs, ciAddr]
      have hnotrej := hkept _ hci
      rw [ipcpJudge] at hnotrej ⊢
      split_ifs at hnotrej ⊢
      · exact absurd rfl hnotrej
      · rfl
    have hj : (ReqCi.opt ciCompresstype cilenVj body, ConfCode.nak) ∈ js.filter (·.2 == .nak) :=
      List.mem_filter.mpr ⟨hmem.mpr ⟨hci, hnak⟩, rfl⟩
    exact ipcpHint_eq_iff.mp (h _ hj) rfl rfl hwrong
  · intro h j hj
    have hci := (hmem.mp (List.mem_filter.mp hj).1).1
    obtain ⟨ci, verdict⟩ := j
    cases ci with
    | tail octets => rfl
    | opt citype cilen body =>
        refine ipcpHint_eq_iff.mpr ?_
        rintro rfl rfl hwrong
        exact h body hci hwrong

end

/-! ## The Naks of both -/

/-- A Nak has an acceptable value for each option that was Nak'd and nothing else. For LCP
that is so if and only if no MRU and no asyncmap is among them, and for IPCP if and only if
a slot-ID flag among them gets the suggestion not to set it. -/
theorem nak_contents_iff (magic : Nat → UInt32) (lcp : Lcp) (o : Ipcp) (inp : Buf)
    (len : Nat) (reject : Bool) :
    ((lcpReqciAt magic lcp inp len reject).1.rc = .nak →
        (LcpNakOf magic lcp.allow (lcpJudged lcp.got lcp.allow LcpOptions.zero (cisAt inp len))
            (lcpReqciAt magic lcp inp len reject).1.data ↔
          ∀ cilen body, (ReqCi.opt ciMru cilen body ∈ cisAt inp len → minmru ≤ shortAt body) ∧
            (ReqCi.opt ciAsyncmap cilen body ∈ cisAt inp len →
              lcp.allow.asyncmap &&& ~~~ (longAt body) = 0))) ∧
    ((ipcpReqciAt o inp len reject).1.rc = .nak →
        (IpcpNakOf o.want o.allow reject (ipcpJudged o.want o.allow (cisAt inp len))
            (ipcpReqciAt o inp len reject).1.data ↔
          ∀ body, ReqCi.opt ciCompresstype cilenVj body ∈ cisAt inp len →
            cflagWrong o.allow body = true → o.want.cflag = 0)) :=
  ⟨lcp_nak_iff, ipcp_nak_iff⟩

/-- A looped line gets a fresh magic number, and a peer without an address the one that we
have for it. -/
theorem nak_contents_usual :
    (let magic (n : Nat) : UInt32 := 7 + n.toUInt32;
      let o := lcpResetci magic lcpInit;
      let inp := Buf.of [1, 4, 5, 220, 5, 6, 0, 0, 0, 7];
      (lcpReqciAt magic o inp 10 false).1.rc = .nak ∧
        LcpNakOf magic o.allow (lcpJudged o.got o.allow LcpOptions.zero (cisAt inp 10))
          (lcpReqciAt magic o inp 10 false).1.data) ∧
    (let o := ipcpResetci
        { ipcpInit with want := { ipcpInit.want with hisaddr := 0x0a000001 } };
      let inp := Buf.of [3, 6, 0, 0, 0, 0];
      (ipcpReqciAt o inp 6 false).1.rc = .nak ∧
        IpcpNakOf o.want o.allow false (ipcpJudged o.want o.allow (cisAt inp 6))
          (ipcpReqciAt o inp 6 false).1.data) := by
  constructor
  · intro magic o inp
    have hrc : (lcpReqciAt magic o inp 10 false).1.rc = .nak := by decide +kernel
    have hcis : cisAt inp 10 = [.opt 1 4 [5, 220], .opt 5 6 [0, 0, 0, 7]] := by decide +kernel
    refine ⟨hrc, ((nak_contents_iff magic o ipcpInit inp 10 false).1 hrc).mpr ?_⟩
    intro cilen body
    rw [hcis]
    refine ⟨?_, ?_⟩
    · intro h
      obtain ⟨-, rfl⟩ : cilen = 4 ∧ body = [5, 220] := by simpa [ciMru] using h
      decide
    · intro h
      simp [ciAsyncmap] at h
  · intro o inp
    have hrc : (ipcpReqciAt o inp 6 false).1.rc = .nak := by decide +kernel
    have hcis : cisAt inp 6 = [.opt 3 6 [0, 0, 0, 0]] := by decide +kernel
    refine ⟨hrc, ((nak_contents_iff (fun _ => 7) lcpInit o inp 6 false).2 hrc).mpr ?_⟩
    intro body h
    rw [hcis] at h
    simp [ciCompresstype] at h

/-- The Nak of an MRU of 64 has nothing in it. -/
theorem nak_empty :
    ¬ ∀ (magic : Nat → UInt32) (o : Lcp) (inp : Buf) (len : Nat) (reject : Bool),
      (lcpReqciAt magic o inp len reject).1.rc = .nak →
        LcpNakOf magic o.allow (lcpJudged o.got o.allow LcpOptions.zero (cisAt inp len))
          (lcpReqciAt magic o inp len reject).1.data := by
  intro h
  have hnak := h (fun _ => 7) lcpInit (Buf.of [1, 4, 0, 64]) 4 false (by decide +kernel)
  exact hnak.1 (by decide +kernel)

/-! ## The Reject -/

/-- The Reject of both, as the options came. A malformed tail is counted in one octet by
`lcp_reqci`, and is there in full if it is short enough for that. -/
theorem reject_contents :
    (∀ (magic : Nat → UInt32) (o : Lcp) (inp : Buf) (len : Nat) (reject : Bool),
      (∀ octets, ReqCi.tail octets ∈ cisAt inp len → octets.length < 256) →
      (lcpReqciAt magic o inp len reject).1.rc = .rej →
        (lcpReqciAt magic o inp len reject).1.data =
          ((lcpJudged o.got o.allow LcpOptions.zero (cisAt inp len)).filter
            (lcpSentence reject · == .rej)).flatMap (·.1.octets)) ∧
    (∀ (o : Ipcp) (inp : Buf) (len : Nat) (reject : Bool),
      (ipcpReqciAt o inp len reject).1.rc = .rej →
        (ipcpReqciAt o inp len reject).1.data =
          ((ipcpJudged o.want o.allow (cisAt inp len)).filter
            (ipcpSentence reject · == .rej)).flatMap (·.1.octets)) := by
  constructor
  · intro magic o inp len reject htail hrc
    rw [(lcpReqciAt_judged magic o inp len reject).2.2.2 hrc, lcpRejected]
    refine List.flatMap_congr ?_
    intro j hj
    obtain ⟨_, hmem, _⟩ := mem_lcpJudged (List.mem_filter.mp hj).1
    obtain ⟨ci, verdict⟩ := j
    cases ci with
    | opt citype cilen body => rfl
    | tail octets =>
        show octets.take (octets.length % 256) = octets
        rw [Nat.mod_eq_of_lt (htail octets hmem), List.take_length]
  · intro o inp len reject hrc
    exact (ipcpReqciAt_judged o inp len reject).2.2 hrc

/-- An option that nobody knows is rejected. -/
theorem reject_contents_unknown :
    (lcpReqciAt (fun _ => 7) lcpInit (Buf.of [99, 2]) 2 false).1.rc = .rej ∧
    (lcpReqciAt (fun _ => 7) lcpInit (Buf.of [99, 2]) 2 false).1.data =
      ((lcpJudged lcpInit.got lcpInit.allow LcpOptions.zero (cisAt (Buf.of [99, 2]) 2)).filter
        (lcpSentence false · == .rej)).flatMap (·.1.octets) ∧
    (ipcpReqciAt ipcpInit (Buf.of [99, 2]) 2 false).1.rc = .rej ∧
    (ipcpReqciAt ipcpInit (Buf.of [99, 2]) 2 false).1.data =
      ((ipcpJudged ipcpInit.want ipcpInit.allow (cisAt (Buf.of [99, 2]) 2)).filter
        (ipcpSentence false · == .rej)).flatMap (·.1.octets) := by
  have hcis : cisAt (Buf.of [99, 2]) 2 = [.opt 99 2 []] := by decide +kernel
  refine ⟨by decide +kernel, ?_, by decide +kernel, ?_⟩
  · refine reject_contents.1 (fun _ => 7) lcpInit (Buf.of [99, 2]) 2 false ?_ (by decide +kernel)
    intro octets h
    simp [hcis] at h
  · exact reject_contents.2 ipcpInit (Buf.of [99, 2]) 2 false (by decide +kernel)

/-- Even when we are fed up a magic number that is ours is not rejected. -/
theorem looped_not_rejected :
    ¬ ∀ (magic : Nat → UInt32) (o : Lcp) (inp : Buf) (len : Nat) (reject : Bool),
      (lcpReqciAt magic o inp len reject).1.rc = .rej →
        (lcpReqciAt magic o inp len reject).1.data =
          ((lcpJudged o.got o.allow LcpOptions.zero (cisAt inp len)).filter fun j =>
            j.2 == .rej || j.2 == .nak && reject).flatMap (·.1.octets) := by
  intro h
  have heq := h (fun _ => 7) (lcpResetci (fun _ => 7) lcpInit)
    (Buf.of [5, 6, 0, 0, 0, 7, 99, 2]) 8 true (by decide +kernel)
  exact absurd heq (by decide +kernel)

end VxWorks.Ppp
