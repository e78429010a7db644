import Mathlib.Algebra.BigOperators.Group.List.Lemmas
import Mathlib.Tactic.Common
import VxWorks.Ppp.ReqJudged

/-!
# The `nak_buffer` (`lcp.c`)

The Nak of `lcp_reqci` is put together in a static buffer of `PPP_MRU` octets and copied
over the request when it is sent. A suggestion is not always as long as the option it is
for. Where CHAP is suggested, an authentication option of four octets gets one of five, and
the loop does not look whether there is room. A request full of such options writes beyond
the end of both.
-/

namespace VxWorks.Ppp

open VxWorks.Lib

/-- The octets that an option takes up in the `nak_buffer`. -/
def hintOctets (ao : LcpOptions) : Judged → Nat
  | (.opt citype _ _, .nak) =>
      if citype = ciAuthtype then if ao.negChap then 5 else 4
      else if citype = ciQuality then 8
      else if citype = ciMagicnumber then 6
      else 0
  | _ => 0

def hintTotal (ao : LcpOptions) (js : List Judged) : Nat := (js.map (hintOctets ao)).sum

section

variable {magic : Nat → UInt32} {go ao : LcpOptions} {reject : Bool}

theorem length_lcpHints (js : List Judged) (drawn : Nat) :
    (lcpHints magic ao drawn js).length = hintTotal ao js := by
  have hone (j : Judged) (drawn : Nat) :
      (lcpSuggested magic ao drawn j).length = hintOctets ao j := by
    obtain ⟨ci, verdict⟩ := j
    cases ci <;> cases verdict <;> try rfl
    simp only [lcpSuggested, lcpSuggests, hintOctets]
    split_ifs <;> rfl
  induction js generalizing drawn with
  | nil => rfl
  | cons j js ih =>
      rw [lcpHints, List.length_append, hone, ih]
      rfl

theorem hintOctets_of_ack {j : Judged} (h : lcpSentence reject j = .ack) : hintOctets ao j = 0 := by
  obtain ⟨ci, verdict⟩ := j
  cases ci with
  | tail octets => rfl
  | opt citype cilen body =>
      cases verdict with
      | nak =>
          simp only [lcpSentence] at h
          split_ifs at h
      | _ => rfl

theorem lcpEndswitch_nak (citype : UInt8) (cip cilen : Nat) (orc : ConfCode) (s : LcpReqVars) :
    (lcpEndswitch reject citype cip cilen orc s).r.nak = s.r.nak := by
  unfold lcpEndswitch
  repeat' first | rfl | split

/-- Nothing is taken back from the `nak_buffer`. -/
theorem lcpReqTurn_nak (s : LcpReqVars) :
    s.r.nak <+: (lcpReqTurn magic go ao reject s).r.nak := by
  rw [lcpReqTurn]
  dsimp only
  split
  · rw [lcpEndswitch_nak]
  · rw [lcpEndswitch_nak, lcpReqOpt_frame]
    exact List.prefix_append _ _

theorem lcpReqLoop_nak {n m : Nat} (h : n ≤ m) (s : LcpReqVars) :
    (lcpReqLoop magic go ao reject n s).r.nak <+: (lcpReqLoop magic go ao reject m s).r.nak := by
  induction n generalizing m s with
  | zero =>
      clear h
      induction m generalizing s with
      | zero => exact List.prefix_refl _
      | succ m ih =>
          rw [lcpReqLoop, lcpReqLoop]
          split
          · exact List.prefix_refl _
          · exact (lcpReqTurn_nak s).trans (ih _)
  | succ n ih =>
      obtain ⟨m, rfl⟩ : ∃ k, m = k + 1 := ⟨m - 1, by omega⟩
      rw [lcpReqLoop, lcpReqLoop]
      split
      · exact List.prefix_refl _
      · exact ih (by omega) _

/-- What the `nak_buffer` holds in the end, after as many rounds as there are octets or
more. -/
theorem lcpReqLoop_hints {o : Lcp} {inp : Buf} {len n : Nat} (hn : len ≤ n) :
    (lcpReqLoop magic o.got o.allow reject n (lcpReqStart o inp len)).r.nak =
      lcpHints magic o.allow o.drawn
        (lcpJudged o.got o.allow LcpOptions.zero (cisAt inp len)) := by
  have hbuf := (@lcpReqLoop_eq magic o.got o.allow reject n (lcpReqStart o inp len) hn
    (.inl (Nat.le_refl _))).1
  have hcis : reqCis n (inp.slice 0 len) = cisAt inp len := by
    rw [cisAt, Buf.slice_zero_eq_take]
    exact reqCis_enough (by rw [Buf.length_take]; exact hn) (by rw [Buf.length_take])
  have hfold := (lcpReqFold_eq magic o.got o.allow reject (cisAt inp len)
    (lcpReqStart o inp len).abs).1
  rw [← hcis] at hfold
  exact (congrArg LcpReq.nak hbuf).trans (hcis ▸ hfold)

end

/-- The `nak_buffer` and the packet are large enough for the Nak if and only if the octets of
the suggestions are not more than the buffer has, nor than the packet has when the Nak is
sent. -/
theorem nak_fits_iff (magic : Nat → UInt32) (o : Lcp) (inp : Buf) (len : Nat) (reject : Bool) :
    let js := lcpJudged o.got o.allow LcpOptions.zero (cisAt inp len)
    ((∀ n, (lcpReqLoop magic o.got o.allow reject n (lcpReqStart o inp len)).r.nak.length ≤
          pppMru) ∧
        ((lcpReqciAt magic o inp len reject).1.rc = .nak →
          (lcpReqciAt magic o inp len reject).1.len ≤ inpRoom)) ↔
      hintTotal o.allow js ≤ pppMru ∧
        ((∀ j ∈ js, lcpSentence reject j ≠ .rej) → hintTotal o.allow js ≤ inpRoom) := by
  intro js
  obtain ⟨hanswer, _, hdata, _⟩ := lcpReqciAt_judged magic o inp len reject
  have hend {n : Nat} (hn : len ≤ n) :
      (lcpReqLoop magic o.got o.allow reject n (lcpReqStart o inp len)).r.nak.length =
        hintTotal o.allow js := by
    rw [lcpReqLoop_hints hn, length_lcpHints]
  have hlen (hrc : (lcpReqciAt magic o inp len reject).1.rc = .nak) :
      (lcpReqciAt magic o inp len reject).1.len = hintTotal o.allow js := by
    rw [← @length_lcpHints magic o.allow js o.drawn, ← hdata hrc, Reply.data, Buf.length_take]
  constructor
  · rintro ⟨hbuf, hroom⟩
    refine ⟨hend le_rfl ▸ hbuf len, ?_⟩
    intro hkept
    cases hrc : (lcpReqciAt magic o inp len reject).1.rc with
    | nak => exact hlen hrc ▸ hroom hrc
    | rej =>
        obtain ⟨j, hj, hrej⟩ := answer_eq_rej.mp (hanswer.symm.trans hrc)
        exact absurd hrej (hkept j hj)
    | ack =>
        have hzero : hintTotal o.allow js = 0 := by
          refine List.sum_eq_zero ?_
          intro n hn
          obtain ⟨j, hj, rfl⟩ := List.mem_map.mp hn
          exact hintOctets_of_ack (answer_eq_ack.mp (hanswer.symm.trans hrc) j hj)
        rw [hzero]
        exact Nat.zero_le _
  · rintro ⟨hbuf, hroom⟩
    refine ⟨?_, ?_⟩
    · intro n
      have hle := (@lcpReqLoop_nak magic o.got o.allow reject n (max n len) (by omega)
        (lcpReqStart o inp len)).length_le
      rw [hend (n := max n len) (by omega)] at hle
      omega
    · intro hrc
      rw [hlen hrc]
      exact hroom (answer_nak (hanswer.symm.trans hrc)).1

theorem lcpJudged_replicate {go ao his : LcpOptions} {ci : ReqCi}
    (h : lcpJudge go ao his ci = .nak) (n : Nat) :
    lcpJudged go ao his (List.replicate n ci) = List.replicate n (ci, .nak) := by
  induction n with
  | zero => rfl
  | succ n ih =>
      rw [List.replicate_succ, lcpJudged, h, if_neg (by decide), ih]
      rfl

/-- The same option again and again. -/
theorem length_repeated_hints (magic : Nat → UInt32) (o : Lcp) {ci : ReqCi} (hwhole : ci.Whole)
    (hnak : lcpJudge o.got o.allow LcpOptions.zero ci = .nak) (reject : Bool) (n : Nat) :
    let request := (List.replicate n ci).flatMap ReqCi.octets
    (lcpReqLoop magic o.got o.allow reject request.length
        (lcpReqStart o (Buf.of request) request.length)).r.nak.length =
      n * hintOctets o.allow (ci, .nak) := by
  intro request
  have hcis : cisAt (Buf.of request) request.length = List.replicate n ci := by
    rw [cisAt, Buf.take_of le_rfl, List.take_length]
    refine reqCis_flatMap ?_ le_rfl
    intro ci' hci'
    rw [List.eq_of_mem_replicate hci']
    exact hwhole
  rw [lcpReqLoop_hints le_rfl, length_lcpHints, hcis, lcpJudged_replicate hnak, hintTotal,
    List.map_replicate, List.sum_replicate]
  rfl

/-- A request of 1496 octets, which is as long as it can be: 374 times an authentication
protocol that nobody knows. The suggestions are 1870 octets. -/
theorem nak_overflows :
    ¬ ∀ (magic : Nat → UInt32) (o : Lcp) (inp : Buf) (len : Nat) (reject : Bool),
      len + 4 ≤ pppMru →
        (∀ n, (lcpReqLoop magic o.got o.allow reject n (lcpReqStart o inp len)).r.nak.length ≤
          pppMru) ∧
        ((lcpReqciAt magic o inp len reject).1.rc = .nak →
          (lcpReqciAt magic o inp len reject).1.len ≤ inpRoom) := by
  intro h
  let ci : ReqCi := .opt 3 4 [0xc0, 0x27]
  let request (n : Nat) := (List.replicate n ci).flatMap ReqCi.octets
  have hsize (n : Nat) : (request n).length = n * 4 := by
    show ((List.replicate n ci).flatMap ReqCi.octets).length = n * 4
    rw [List.length_flatMap, List.map_replicate, List.sum_replicate]
    rfl
  have hlong := @length_repeated_hints (fun _ => 7) lcpInit ci rfl (by decide) false 374
  have hfits : (request 374).length + 4 ≤ pppMru := by
    rw [hsize]
    decide
  have hbuf := (h (fun _ => 7) lcpInit (Buf.of (request 374)) (request 374).length false hfits).1
    (request 374).length
  exact absurd (hlong ▸ hbuf) (by decide)

end VxWorks.Ppp
