import VxWorks.Ppp.Output
import VxWorks.Ppp.ReqJudged

/-!
# How often we disagree

`fsm_rconfreq` counts the Naks it sends, and once there are as many as the limit
it tells `reqci` to reject what it would otherwise Nak. The count starts again
with an Ack, and with a request that starts a negotiation.

`reqci` is in the way of this once: `lcp_reqci` Naks a magic number no matter how
often. But a rejection of any other option prevails, so a Nak that goes out
against the limit has magic numbers in it and nothing else, whatever came before
them and behind. It is counted all the same, and the count is never below the
number of the Naks that matter.
-/

namespace VxWorks.Ppp

open VxWorks.Lib

/-- There is something in a Nak, whole or not, that is not the magic number of LCP. -/
def disagrees (data : List UInt8) : Bool :=
  (reqCis data.length data).any fun ci => ci.octets.head? != some ciMagicnumber

/-- The Naks since the count was started, as far as they count. -/
def naksSince (counts : List UInt8 → Bool) : List FsmEvent → Nat
  | [] => 0
  | .sconfreq _ _ :: _ => 0
  | .sent p :: l =>
      if p.code = confack then 0
      else if p.code = confnak ∧ counts p.data then naksSince counts l + 1
      else naksSince counts l
  | _ :: l => naksSince counts l

/-- The history has a call of `fsm_sconfreq` in it if that starts a negotiation. -/
def World.recordStart {σ : Type} (e : FsmEvent) (w : World σ) : World σ :=
  match e with
  | .sconfreq _ _ => if w.f.state.negotiating then w else w.record e
  | _ => w.record e

/-! ## A Nak against the limit -/

/-- Magic numbers, as `lcp_reqci` suggests them. -/
def magicOctets (vs : List UInt32) : List UInt8 := vs.flatMap (ciLong ciMagicnumber).put

theorem reqCis_magicOctets (vs : List UInt32) (rounds n : Nat) :
    ∀ ci ∈ reqCis rounds ((magicOctets vs).take n), ci.octets.head? = some ciMagicnumber := by
  induction vs generalizing rounds n with
  | nil =>
      rw [magicOctets, List.flatMap_nil, List.take_nil]
      cases rounds <;> exact nofun
  | cons v vs ih =>
      have hcons : magicOctets (v :: vs) =
          ciMagicnumber :: cilenLong :: (put32 v ++ magicOctets vs) := rfl
      have hsix : cilenLong.toNat = 6 := rfl
      rw [hcons]
      cases rounds with
      | zero => exact nofun
      | succ rounds =>
          match n with
          | 0 => exact nofun
          | 1 =>
              intro ci hci
              obtain rfl := List.mem_singleton.mp hci
              rfl
          | n + 2 =>
              intro ci hci
              rw [List.take_succ_cons, List.take_succ_cons, reqCis] at hci
              split at hci
              · obtain rfl := List.mem_singleton.mp hci
                rfl
              · rcases List.mem_cons.mp hci with rfl | hmem
                · rfl
                · rw [hsix, List.drop_take, List.drop_left'] at hmem
                  · exact ih rounds _ ci hmem
                  · rfl

theorem disagrees_magicOctets (vs : List UInt32) (n : Nat) :
    disagrees ((magicOctets vs).take n) = false := by
  rw [disagrees, List.any_eq_false]
  intro ci hci
  rw [reqCis_magicOctets vs _ n ci hci]
  decide

section

variable {magic : Nat → UInt32} {ao : LcpOptions}

/-- Against the limit only a magic number is Nak'd. -/
theorem type_of_tough {j : Judged} (hnak : j.2 = .nak) (h : lcpSentence true j ≠ .rej) :
    (∃ octets, j.1 = .tail octets) ∨ ∃ cilen body, j.1 = .opt ciMagicnumber cilen body := by
  obtain ⟨ci, verdict⟩ := j
  obtain rfl : verdict = .nak := hnak
  cases ci with
  | tail octets => exact .inl ⟨octets, rfl⟩
  | opt citype cilen body =>
      by_cases hmagic : citype = ciMagicnumber
      · exact .inr ⟨cilen, body, by rw [hmagic]⟩
      · exact absurd (if_pos ⟨rfl, hmagic⟩) h

theorem lcpHints_tough {js : List Judged} (h : ∀ j ∈ js, lcpSentence true j ≠ .rej)
    (drawn : Nat) : ∃ vs, lcpHints magic ao drawn js = magicOctets vs := by
  induction js generalizing drawn with
  | nil => exact ⟨[], rfl⟩
  | cons j js ih =>
      obtain ⟨vs, hvs⟩ := ih (fun k hk => h k (List.mem_cons_of_mem j hk)) (lcpDrawn drawn j)
      rw [lcpHints, hvs]
      obtain ⟨ci, verdict⟩ := j
      by_cases hnak : verdict = .nak
      · subst hnak
        rcases type_of_tough rfl (h _ List.mem_cons_self) with ⟨octets, rfl⟩ | ⟨cilen, body, rfl⟩
        · exact ⟨vs, rfl⟩
        · exact ⟨magic drawn :: vs, rfl⟩
      · refine ⟨vs, ?_⟩
        cases ci <;> cases verdict <;> first | rfl | exact absurd rfl hnak

/-- What `lcp_reqci` Naks against the limit. -/
theorem lcpReqci_tough {o : Lcp} {inp : List UInt8} (h : (lcpReqci magic o inp true).1 = .nak)
    (n : Nat) : disagrees ((lcpReqci magic o inp true).2.1.take n) = false := by
  obtain ⟨hnak, -, hrc⟩ := lcpReqFold_eq magic o.got o.allow true (reqCis inp.length inp)
    { his := LcpOptions.zero, nak := [], rej := [], rc := .ack, drawn := o.drawn }
  have hdata : (lcpReqci magic o inp true).2.1 =
      lcpHints magic o.allow o.drawn
        (lcpJudged o.got o.allow LcpOptions.zero (reqCis inp.length inp)) := by
    have hrc' : ((reqCis inp.length inp).foldl (lcpReqRound magic o.got o.allow true)
      { his := LcpOptions.zero, nak := [], rej := [], rc := .ack, drawn := o.drawn }).rc =
        .nak := h
    rw [lcpReqci]
    dsimp only
    rw [hrc']
    exact hnak
  have hanswer : answer (lcpSentence true)
      (lcpJudged o.got o.allow LcpOptions.zero (reqCis inp.length inp)) = .nak := by
    have hworst := hrc.symm.trans h
    cases hans : answer (lcpSentence true)
      (lcpJudged o.got o.allow LcpOptions.zero (reqCis inp.length inp)) with
    | nak => rfl
    | ack =>
        rw [hans] at hworst
        cases hworst
    | rej =>
        rw [hans] at hworst
        cases hworst
  obtain ⟨vs, hvs⟩ := @lcpHints_tough magic o.allow _ (answer_nak hanswer).1 o.drawn
  rw [hdata, hvs]
  exact disagrees_magicOctets vs n

end

/-- `ipcp_reqci` Naks nothing against the limit. -/
theorem ipcpReqci_tough (o : Ipcp) (inp : List UInt8) : (ipcpReqci o inp true).1 ≠ .nak := by
  have hdispose (orc : ConfCode) (cip : List UInt8) {r : IpcpReq} (hr : r.rc ≠ .nak) :
      (ipcpReqDispose true orc cip r).rc ≠ .nak := by
    obtain ⟨go, ho, out, rc⟩ := r
    cases orc <;> cases rc <;> first | exact absurd rfl hr | (intro h; cases h)
  have hround (r : IpcpReq) (ci : ReqCi) (hr : r.rc ≠ .nak) :
      (ipcpReqRound o.want o.allow true r ci).rc ≠ .nak := by
    cases ci with
    | tail octets => exact hdispose .rej octets hr
    | opt citype cilen body =>
        refine hdispose _ _ ?_
        rw [ipcpReqOpt_frame]
        exact hr
  have hfold (cis : List ReqCi) (r : IpcpReq) (hr : r.rc ≠ .nak) :
      (cis.foldl (ipcpReqRound o.want o.allow true) r).rc ≠ .nak := by
    induction cis generalizing r with
    | nil => exact hr
    | cons ci cis ih => exact ih _ (hround r ci hr)
  have hask (r : IpcpReq) : (ipcpReqAsk o.want true r).1 = r := by
    rw [ipcpReqAsk, if_neg fun h => absurd h.2.2.2 (by decide)]
  show (ipcpReqAsk o.want true _).1.rc ≠ .nak
  rw [hask]
  refine hfold _ _ ?_
  intro h
  cases h

/-! ## Within the limit -/

section

variable {σ : Type}

/-- There were never too many Naks that count, and how many there are can be told from the
counter of the automaton. The limit stays as it is. -/
structure Patient (counts : List UInt8 → Bool) (limit : Int) (count : Int → Int)
    (w : World σ) : Prop where
  within : ∀ l, l <:+ w.log → (naksSince counts l : Int) ≤ max 0 limit
  counted : (naksSince counts w.log : Int) ≤ count w.f.nakloops
  limit : w.f.maxnakloops = limit

namespace Patient

variable {counts : List UInt8 → Bool} {limit : Int} {count count' : Int → Int} {w t : World σ}

/-- What a step has to show: the history is at most one event longer. -/
theorem extend (h : Patient counts limit count w) (hlimit : t.f.maxnakloops = w.f.maxnakloops)
    (hlog : t.log = w.log ∨ ∃ e, t.log = e :: w.log)
    (hwithin : (naksSince counts t.log : Int) ≤ max 0 limit)
    (hcounted : (naksSince counts t.log : Int) ≤ count' t.f.nakloops) :
    Patient counts limit count' t where
  within l hl := by
    rcases hlog with hsame | ⟨e, hcons⟩
    · exact h.within l (hsame ▸ hl)
    · rw [hcons] at hl
      rcases List.suffix_cons_iff.mp hl with rfl | hsuffix
      · rw [← hcons]
        exact hwithin
      · exact h.within l hsuffix
  counted := hcounted
  limit := hlimit.trans h.limit

/-- The counters stay, and so does the number of Naks. -/
theorem same (h : Patient counts limit count w) (hlimit : t.f.maxnakloops = w.f.maxnakloops)
    (hloops : t.f.nakloops = w.f.nakloops) (hlog : t.log = w.log ∨ ∃ e, t.log = e :: w.log)
    (hnaks : naksSince counts t.log ≤ naksSince counts w.log) :
    Patient counts limit count t := by
  have hle : (naksSince counts t.log : Int) ≤ naksSince counts w.log := by exact_mod_cast hnaks
  refine h.extend hlimit hlog (hle.trans (h.within _ List.suffix_rfl)) ?_
  rw [hloops]
  exact hle.trans h.counted

/-- Something else changes. -/
theorem aside (h : Patient counts limit count w) (hf : t.f = w.f) (hlog : t.log = w.log) :
    Patient counts limit count t :=
  h.same (congrArg Fsm.maxnakloops hf) (congrArg Fsm.nakloops hf) (.inl hlog) (by rw [hlog])

/-- The record changes, and its counters do not. -/
theorem set (h : Patient counts limit count w) {f : Fsm} (hloops : f.nakloops = w.f.nakloops)
    (hlimit : f.maxnakloops = w.f.maxnakloops) : Patient counts limit count { w with f := f } :=
  h.same hlimit hloops (.inl rfl) (Nat.le_refl _)

/-- An event that is no packet and no request. -/
theorem event (h : Patient counts limit count w) {e : FsmEvent}
    (he : naksSince counts (e :: w.log) = naksSince counts w.log) :
    Patient counts limit count (w.record e) :=
  h.same rfl rfl (.inr ⟨e, rfl⟩) he.le

/-- A packet that is no Nak. -/
theorem sent (h : Patient counts limit count w) (code id : UInt8) (data : List UInt8)
    (hcode : code ≠ confnak) : Patient counts limit count (w.record (.sent ⟨code, id, data⟩)) := by
  refine h.same rfl rfl (.inr ⟨_, rfl⟩) ?_
  show naksSince counts (.sent ⟨code, id, data⟩ :: w.log) ≤ _
  rw [naksSince]
  split
  · exact Nat.zero_le _
  · rw [if_neg fun hnak => hcode hnak.1]

end Patient

/-- What `fsm_sconfreq` has come to when the call is recorded: there are no more Naks, and
the counter may have been set back. -/
structure Prepared (counts : List UInt8 → Bool) (limit : Int) (w t : World σ) : Prop where
  state : t.f.state = w.f.state
  nakloops : t.f.nakloops = if w.f.state.negotiating then w.f.nakloops else 0
  within : ∀ l, l <:+ t.log → (naksSince counts l : Int) ≤ max 0 limit
  naks : naksSince counts t.log = naksSince counts w.log
  limit : t.f.maxnakloops = limit

section

variable {peerMru : σ → Int} {hello : σ → Bool} {P : Port (World σ)}
  {cb : LowerCallbacks (World σ)} {w : World σ} {counts : List UInt8 → Bool} {limit : Int}
  {count : Int → Int}

theorem Prepared.record {t : World σ} (h : Prepared counts limit w t) {e : FsmEvent}
    (he : naksSince counts (e :: t.log) = naksSince counts t.log) :
    Prepared counts limit w (t.record e) where
  state := h.state
  limit := h.limit
  nakloops := h.nakloops
  within l hl := by
    rcases List.suffix_cons_iff.mp hl with rfl | hsuffix
    · rw [he]
      exact h.within _ List.suffix_rfl
    · exact h.within l hsuffix
  naks := he.trans h.naks

theorem sconfreq_prepared (hP : P = World.portOf peerMru hello World.recordStart)
    (hreset : ∀ u, (cb.resetci u).f = u.f ∧ (cb.resetci u).log = u.log)
    (hci : ∀ c, cb.ci = some c → ∀ u room,
      (c.2 u room).1.f = u.f ∧ (c.2 u room).1.log = u.log) (retransmit : Bool)
    (h : Patient counts limit count w) :
    Prepared counts limit w (sconfreqCi P cb
      (sconfreqHello P (sconfreqId P retransmit (sconfreqReset P cb w)))).1 := by
  refine sconfreq_made_up P ?_ ?_ ?_ ?_
  · rw [sconfreqReset]
    rw [hP]
    split
    · next hneg => exact ⟨rfl, (if_pos hneg).symm, h.within, rfl, h.limit⟩
    · next hneg =>
        obtain ⟨hf, hlog⟩ := hreset w
        have hstate : (cb.resetci w).f.state = w.f.state := congrArg Fsm.state hf
        have hlimit : (cb.resetci w).f.maxnakloops = limit :=
          (congrArg Fsm.maxnakloops hf).trans h.limit
        exact ⟨hstate, (if_neg hneg).symm, fun l hl => h.within l (hlog ▸ hl),
          congrArg (naksSince counts) hlog, hlimit⟩
  · intro t ht
    rw [sconfreqId]
    rw [hP]
    split
    · exact ht
    · exact ⟨ht.state, ht.nakloops, ht.within, ht.naks, ht.limit⟩
  · intro t ht
    rw [hP]
    exact ht.record rfl
  · intro t c room hc ht
    obtain ⟨hf, hlog⟩ := hci c hc t room
    exact ⟨(congrArg Fsm.state hf).trans ht.state, (congrArg Fsm.nakloops hf).trans ht.nakloops,
      fun l hl => ht.within l (hlog ▸ hl), (congrArg (naksSince counts) hlog).trans ht.naks,
      (congrArg Fsm.maxnakloops hf).trans ht.limit⟩

/-- The call of `fsm_sconfreq` starts the count, or it is one more request. -/
theorem Patient.prepared {t : World σ} (h : Patient counts limit count w)
    (ht : Prepared counts limit w t) (hcount : 0 ≤ count 0) (retransmit : Bool) (id : UInt8) :
    Patient counts limit count (t.recordStart (.sconfreq retransmit id)) := by
  unfold World.recordStart
  dsimp only
  rw [ht.state]
  split
  · next hneg =>
      refine ⟨ht.within, ?_, ht.limit⟩
      rw [ht.naks, ht.nakloops, if_pos hneg]
      exact h.counted
  · next hneg =>
      have hkept : Patient counts limit (fun _ => naksSince counts t.log) t :=
        ⟨ht.within, Int.le_refl _, ht.limit⟩
      refine hkept.extend rfl (.inr ⟨_, rfl⟩) (Int.le_max_left 0 limit) ?_
      show (0 : Int) ≤ count t.f.nakloops
      rw [ht.nakloops, if_neg hneg]
      exact hcount

theorem sconfreq_patient (hP : P = World.portOf peerMru hello World.recordStart)
    (hreset : ∀ u, (cb.resetci u).f = u.f ∧ (cb.resetci u).log = u.log)
    (hci : ∀ c, cb.ci = some c → ∀ u room,
      (c.2 u room).1.f = u.f ∧ (c.2 u room).1.log = u.log) (hcount : 0 ≤ count 0)
    (retransmit : Bool) (h : Patient counts limit count w) :
    Patient counts limit count (fsmSconfreq P cb retransmit w) := by
  obtain ⟨r, hr⟩ : ∃ r, r = sconfreqCi P cb
    (sconfreqHello P (sconfreqId P retransmit (sconfreqReset P cb w))) := ⟨_, rfl⟩
  have hcall : Patient counts limit count (r.1.recordStart (.sconfreq retransmit r.1.f.reqid)) := by
    rw [hr]
    exact h.prepared (sconfreq_prepared hP hreset hci retransmit h) hcount _ _
  unfold fsmSconfreq
  dsimp only
  rw [← hr, hP]
  exact (hcall.sent confreq r.1.f.reqid _ (by decide)).same rfl rfl (.inl rfl) (Nat.le_refl _)

theorem stermreq_patient (hP : P = World.portOf peerMru hello World.recordStart)
    (h : Patient counts limit count w) : Patient counts limit count (fsmStermreq P w) := by
  subst hP
  have hsent := h.sent termreq (w.f.id + 1)
    (([] : List UInt8).take (peerMru w.env - headerlen).toNat) (by decide)
  exact hsent.same rfl rfl (.inl rfl) (Nat.le_refl _)

/-- The Naks that do not count any more, once there are as many as the limit. -/
theorem Patient.nak (h : Patient counts limit id w) (sid : UInt8) (data : List UInt8)
    (htough : limit ≤ w.f.nakloops → counts data = false) :
    Patient counts limit (· + 1) (w.record (.sent ⟨confnak, sid, data⟩)) := by
  have hcounted : (naksSince counts w.log : Int) ≤ w.f.nakloops := h.counted
  have hwithin := h.within _ List.suffix_rfl
  have hnaks : naksSince counts (.sent ⟨confnak, sid, data⟩ :: w.log) =
      if counts data = true then naksSince counts w.log + 1 else naksSince counts w.log := by
    rw [naksSince, if_neg (show confnak ≠ confack by decide)]
    simp
  by_cases hdata : counts data = true
  · have hroom : w.f.nakloops < limit := by
      by_contra hfull
      rw [htough (Int.not_lt.mp hfull)] at hdata
      cases hdata
    rw [if_pos hdata] at hnaks
    refine h.extend rfl (.inr ⟨_, rfl⟩) ?_ ?_
    · show (naksSince counts (.sent ⟨confnak, sid, data⟩ :: w.log) : Int) ≤ _
      rw [hnaks]
      push_cast
      omega
    · show (naksSince counts (.sent ⟨confnak, sid, data⟩ :: w.log) : Int) ≤ w.f.nakloops + 1
      rw [hnaks]
      push_cast
      omega
  · rw [if_neg hdata] at hnaks
    refine h.extend rfl (.inr ⟨_, rfl⟩) ?_ ?_
    · show (naksSince counts (.sent ⟨confnak, sid, data⟩ :: w.log) : Int) ≤ _
      rw [hnaks]
      exact hwithin
    · show (naksSince counts (.sent ⟨confnak, sid, data⟩ :: w.log) : Int) ≤ w.f.nakloops + 1
      rw [hnaks]
      omega

/-- With an Ack the count starts again. -/
theorem Patient.ack (h : Patient counts limit id w) (sid : UInt8) (data : List UInt8) :
    Patient counts limit (fun _ => 0) (w.record (.sent ⟨confack, sid, data⟩)) := by
  have hnone : naksSince counts (.sent ⟨confack, sid, data⟩ :: w.log) = 0 := if_pos rfl
  refine h.extend rfl (.inr ⟨_, rfl⟩) ?_ ?_
  · show (naksSince counts (.sent ⟨confack, sid, data⟩ :: w.log) : Int) ≤ _
    rw [hnone]
    exact Int.le_max_left 0 limit
  · show (naksSince counts (.sent ⟨confack, sid, data⟩ :: w.log) : Int) ≤ 0
    rw [hnone]
    rfl

end

/-- An answer to a request. -/
theorem reply_patient {peerMru : σ → Int} {hello : σ → Bool} {P : Port (World σ)}
    (hP : P = World.portOf peerMru hello World.recordStart) {cb : Callbacks (World σ)}
    {counts : List UInt8 → Bool} {limit : Int} {w : World σ}
    (hup : ∀ {t}, Patient counts limit (fun _ => 0) t →
      Patient counts limit (fun _ => 0) (goUp P cb t)) {inp : List UInt8}
    (hsame : (checkReq P cb inp w).2.2.f = w.f ∧ (checkReq P cb inp w).2.2.log = w.log)
    (htough : limit ≤ w.f.nakloops → (checkReq P cb inp w).1 = .nak →
      ∀ n, counts ((checkReq P cb inp w).2.1.take n) = false)
    (h : Patient counts limit id w) (sid : UInt8) :
    Patient counts limit id (rconfreqReply P cb sid inp w) := by
  obtain ⟨⟨code, data, t⟩, hr⟩ : ∃ r, r = checkReq P cb inp w := ⟨_, rfl⟩
  unfold rconfreqReply
  rw [← hr] at hsame htough ⊢
  have ht : Patient counts limit id t := h.aside hsame.1 hsame.2
  unfold rconfreqMove
  dsimp only
  subst hP
  cases code with
  | ack =>
      rw [if_pos rfl]
      have hsent := ht.ack sid (data.take (peerMru t.env - headerlen).toNat)
      have hmoved : Patient counts limit (fun _ => 0)
          (if t.f.state = .ackrcvd then
            goUp (World.portOf peerMru hello World.recordStart) cb
              ((World.portOf peerMru hello World.recordStart).setState .opened
                ((World.portOf peerMru hello World.recordStart).untimeout
                  (fsmSdata (World.portOf peerMru hello World.recordStart) confack sid data t)))
          else (World.portOf peerMru hello World.recordStart).setState .acksent
            (fsmSdata (World.portOf peerMru hello World.recordStart) confack sid data t)) := by
        split
        · exact hup (hsent.same rfl rfl (.inl rfl) (Nat.le_refl _))
        · exact hsent.same rfl rfl (.inl rfl) (Nat.le_refl _)
      exact hmoved.extend rfl (.inl rfl) (hmoved.within _ List.suffix_rfl) hmoved.counted
  | nak =>
      have hsent := ht.nak sid (data.take (peerMru t.env - headerlen).toNat) (by
        rw [hsame.1]
        exact fun hfull => htough hfull rfl _)
      rw [if_neg nofun, if_pos rfl]
      split
      · exact hsent.extend rfl (.inl rfl) (hsent.within _ List.suffix_rfl) hsent.counted
      · exact hsent.extend rfl (.inl rfl) (hsent.within _ List.suffix_rfl) hsent.counted
  | rej =>
      have hsent := ht.sent confrej sid (data.take (peerMru t.env - headerlen).toNat) (by decide)
      rw [if_neg nofun, if_neg nofun]
      split
      · exact hsent.same rfl rfl (.inl rfl) (Nat.le_refl _)
      · exact hsent

/-! ## LCP -/

namespace LcpRest

variable (a : LcpRest σ) {counts : List UInt8 → Bool} {limit : Int} {count : Int → Int}

theorem lower_patient (hcount : 0 ≤ count 0) :
    a.lower.Keeps (a.portWith World.recordStart) (Patient counts limit count) where
  set hloops hlimit h := h.set hloops hlimit
  untimeout h := h.aside rfl rfl
  down h := (h.event (e := .down) rfl).aside rfl rfl
  starting h := h
  sconfreq retransmit h := by
    refine sconfreq_patient rfl (fun _ => ⟨rfl, rfl⟩) ?_ hcount retransmit h
    intro c hc u room
    obtain rfl := Option.some.inj hc
    exact ⟨rfl, rfl⟩
  stermreq h := stermreq_patient rfl h

theorem keeps_patient (hcount : 0 ≤ count 0) :
    a.Keeps World.recordStart (Patient counts limit count) where
  lower := a.lower_patient hcount
  env _ h := h.aside rfl rfl
  upOptions h := h.aside rfl rfl

theorem nakrej_patient {w : World (LcpLayer σ)} (h : Patient counts limit count w) (code : UInt8)
    (inp : List UInt8) : Patient counts limit count
      (checkNakrej (a.callbacks₀ (a.portWith World.recordStart)) code inp w).2 := by
  unfold checkNakrej
  by_cases hc : code = confnak
  · rw [if_pos hc]
    exact h.aside rfl rfl
  · rw [if_neg hc]
    exact h.aside rfl rfl

theorem goUp_patient (hcount : 0 ≤ count 0) {w : World (LcpLayer σ)}
    (h : Patient counts limit count w) : Patient counts limit count
      (Ppp.goUp (a.portWith World.recordStart) (a.callbacks₀ (a.portWith World.recordStart)) w) :=
  (a.keeps_patient hcount).goUp (h.event (e := .up) rfl)

theorem callbacks₀_patient (hcount : 0 ≤ count 0) :
    (a.callbacks₀ (a.portWith World.recordStart)).Keeps (a.portWith World.recordStart)
      (Patient counts limit count) where
  toKeeps := a.lower_patient hcount
  timeout h := h.aside rfl rfl
  up h := a.goUp_patient hcount h
  finished h := (a.keeps_patient hcount).finished h
  retransmit h := h
  rcvd p h := h.event (e := .rcvd p) rfl
  accepted id h := h.event (e := .accepted confack id) rfl
  ack _ h := h
  nakrej code id inp _ h := by
    dsimp only
    split
    · exact (a.nakrej_patient h code inp).event (e := .accepted code id) rfl
    · exact a.nakrej_patient h code inp
  termack _ h := h.sent termack _ _ (by decide)

theorem keepsRun_patient : a.KeepsRun World.recordStart (Patient disagrees limit id) where
  toKeeps := a.keeps_patient (Int.le_refl 0)
  callbacks := a.callbacks₀_patient (Int.le_refl 0)
  reply {w} sid inp h := by
    refine reply_patient (P := a.portWith World.recordStart) rfl
      (a.goUp_patient (Int.le_refl 0)) ⟨rfl, rfl⟩ ?_ h sid
    intro hfull hnak n
    have hreject : decide (w.f.maxnakloops ≤ w.f.nakloops) = true := by
      rw [h.limit]
      exact decide_eq_true hfull
    have hreqci : checkReq (a.portWith World.recordStart)
        (a.callbacks₀ (a.portWith World.recordStart)) inp w =
      ((lcpReqci a.magic w.env.link inp true).1, (lcpReqci a.magic w.env.link inp true).2.1,
        onLink (fun _ => (lcpReqci a.magic w.env.link inp true).2.2) w) := by
      rw [← hreject]
      rfl
    rw [hreqci] at hnak ⊢
    exact lcpReqci_tough hnak n
  answer code id data hcode h := by
    refine h.sent code id _ ?_
    rcases hcode with rfl | rfl | rfl <;> decide
  lowerOptions h := h.aside rfl rfl

end LcpRest

/-! ## IPCP -/

namespace IpcpRest

variable (a : IpcpRest σ) {counts : List UInt8 → Bool} {limit : Int} {count : Int → Int}

theorem lower_patient (hcount : 0 ≤ count 0) :
    a.lower.Keeps (a.portWith World.recordStart) (Patient counts limit count) where
  set hloops hlimit h := h.set hloops hlimit
  untimeout h := h.aside rfl rfl
  down h := (h.event (e := .down) rfl).aside rfl rfl
  starting h := h
  sconfreq retransmit h := by
    refine sconfreq_patient rfl (fun _ => ⟨rfl, rfl⟩) ?_ hcount retransmit h
    intro c hc u room
    obtain rfl := Option.some.inj hc
    exact ⟨rfl, rfl⟩
  stermreq h := stermreq_patient rfl h

theorem keeps_patient (hcount : 0 ≤ count 0) :
    a.Keeps World.recordStart (Patient counts limit count) where
  lower := a.lower_patient hcount
  env _ h := h.aside rfl rfl
  his _ h := h.aside rfl rfl

theorem nakrej_patient (hcount : 0 ≤ count 0) {w : World (IpcpLayer σ)}
    (h : Patient counts limit count w) (code : UInt8) (inp : List UInt8) :
    Patient counts limit count
      (checkNakrej (a.callbacks (a.portWith World.recordStart)) code inp w).2 := by
  unfold checkNakrej
  by_cases hc : code = confnak
  · rw [if_pos hc]
    exact h.aside rfl rfl
  · rw [if_neg hc]
    show Patient counts limit count (a.rejected (a.portWith World.recordStart) w inp).2
    rw [rejected]
    dsimp only
    split
    · exact ((a.keeps_patient hcount).goDie h).aside rfl rfl
    · exact h.aside rfl rfl

theorem goUp_patient (hcount : 0 ≤ count 0) {w : World (IpcpLayer σ)}
    (h : Patient counts limit count w) : Patient counts limit count
      (Ppp.goUp (a.portWith World.recordStart) (a.callbacks (a.portWith World.recordStart)) w) :=
  (a.keeps_patient hcount).goUp (h.event (e := .up) rfl)

theorem callbacks_patient (hcount : 0 ≤ count 0) :
    (a.callbacks (a.portWith World.recordStart)).Keeps (a.portWith World.recordStart)
      (Patient counts limit count) where
  toKeeps := a.lower_patient hcount
  timeout h := h.aside rfl rfl
  up h := a.goUp_patient hcount h
  finished h := h
  retransmit h := h
  rcvd p h := h.event (e := .rcvd p) rfl
  accepted id h := h.event (e := .accepted confack id) rfl
  ack _ h := h
  nakrej code id inp _ h := by
    dsimp only
    split
    · exact (a.nakrej_patient hcount h code inp).event (e := .accepted code id) rfl
    · exact a.nakrej_patient hcount h code inp
  termack _ h := h.sent termack _ _ (by decide)

/-- Every Nak counts. -/
theorem keepsRun_patient : a.KeepsRun World.recordStart (Patient counts limit id) where
  toKeeps := a.keeps_patient (Int.le_refl 0)
  callbacks := a.callbacks_patient (Int.le_refl 0)
  reply {w} sid inp h := by
    refine reply_patient (P := a.portWith World.recordStart) rfl
      (a.goUp_patient (Int.le_refl 0)) ⟨rfl, rfl⟩ ?_ h sid
    intro hfull hnak
    have hreject : decide (w.f.maxnakloops ≤ w.f.nakloops) = true := by
      rw [h.limit]
      exact decide_eq_true hfull
    have hreqci : (checkReq (a.portWith World.recordStart)
        (a.callbacks (a.portWith World.recordStart)) inp w).1 =
        (ipcpReqci w.env.net inp true).1 := by
      rw [← hreject]
      rfl
    exact absurd (hreqci.symm.trans hnak) (ipcpReqci_tough w.env.net inp)
  coderej id data h := h.sent coderej id _ (by decide)

end IpcpRest

end

/-! ## In a unit -/

section

variable {σ τ : Type} (a : LcpRest σ) (b : IpcpRest τ)

/-- A unit whose histories say where a negotiation starts. -/
def CpUnit.counting (u : CpUnit σ τ) : CpCall → CpUnit σ τ
  | .lcp call => { u with lcp := a.step (a.portWith World.recordStart) u.lcp call }
  | .ipcp call => { u with ipcp := b.step (b.portWith World.recordStart) u.net call }

/-- The limits stay as they were set. -/
def CpCall.KeepsLimits (maxnak maxnak' : Int) : CpCall → Prop
  | .lcp (.fsm (.config _ _ _ _ n)) => n = maxnak
  | .ipcp (.config _ _ _ _ n) => n = maxnak'
  | _ => True

/-- Neither automaton ever was impatient. For IPCP every Nak counts. -/
structure CpUnit.Patient (maxnak maxnak' : Int) (u : CpUnit σ τ) : Prop where
  lcp : Ppp.Patient disagrees maxnak id u.lcp
  ipcp : Ppp.Patient (fun _ => true) maxnak' id u.ipcp

theorem CpUnit.counting_patient {maxnak maxnak' : Int} {u : CpUnit σ τ}
    (h : u.Patient maxnak maxnak') {call : CpCall} (hcall : call.KeepsLimits maxnak maxnak') :
    (CpUnit.counting a b u call).Patient maxnak maxnak' := by
  cases call with
  | lcp call =>
      refine ⟨a.keepsRun_patient.step call ?_ h.lcp, h.ipcp⟩
      rintro flags timeouttime maxconfreq maxterm n rfl
      exact ⟨h.lcp.within, h.lcp.counted, hcall⟩
  | ipcp call =>
      have hnet : Ppp.Patient (fun _ => true) maxnak' id u.net := h.ipcp.aside rfl rfl
      refine ⟨h.lcp, b.keepsRun_patient.step call ?_ hnet⟩
      rintro flags timeouttime maxconfreq maxterm n rfl
      exact ⟨hnet.within, hnet.counted, hcall⟩

/-- In every run of a unit whose limits are set once, there are at no time more Naks since
the count was started than the limit, the Naks of nothing but magic numbers apart. The
counters are zero in a new record. -/
theorem naks_bounded (a : LcpRest σ) (b : IpcpRest τ) (link : Lcp) (net : Ipcp)
    (random : UInt8 × UInt8) (f : Fsm × Fsm) (env : σ) (env' : τ)
    (flags flags' : FsmFlags) (timeouttime timeouttime' maxconf maxconf' : Int)
    (maxterm maxterm' maxnak maxnak' : Int) (calls : List CpCall)
    (hnew : f.1.nakloops = 0 ∧ f.2.nakloops = 0)
    (hcalls : ∀ call ∈ calls, call.KeepsLimits maxnak maxnak') :
    let u := run (CpUnit.counting a b) (CpUnit.start link net random f env env')
      (.lcp (.fsm (.config flags timeouttime maxconf maxterm maxnak)) ::
        .ipcp (.config flags' timeouttime' maxconf' maxterm' maxnak') :: calls)
    (∀ l, l <:+ u.lcp.log → (naksSince disagrees l : Int) ≤ max 0 maxnak) ∧
    (∀ l, l <:+ u.ipcp.log → (naksSince (fun _ => true) l : Int) ≤ max 0 maxnak') := by
  intro u
  have hnone (counts : List UInt8 → Bool) (limit : Int) (l : List FsmEvent) (hl : l <:+ []) :
      (naksSince counts l : Int) ≤ max 0 limit := by
    obtain rfl := List.suffix_nil.mp hl
    exact Int.le_max_left 0 limit
  have hset : (run (CpUnit.counting a b) (CpUnit.start link net random f env env')
      [.lcp (.fsm (.config flags timeouttime maxconf maxterm maxnak)),
        .ipcp (.config flags' timeouttime' maxconf' maxterm' maxnak')]).Patient
          maxnak maxnak' :=
    ⟨⟨hnone _ _, hnew.1.ge, rfl⟩, ⟨hnone _ _, hnew.2.ge, rfl⟩⟩
  have hrun : u.Patient maxnak maxnak' := by
    refine always_of_guarded (G := fun _ call => call.KeepsLimits maxnak maxnak')
      (CpUnit.Patient maxnak maxnak') hset
      (fun _ call h hcall => CpUnit.counting_patient a b h hcall)
      (fun _ call hpre => hcalls call ?_) calls (List.prefix_refl _)
    exact hpre.subset (by simp)
  exact ⟨hrun.lcp.within, hrun.ipcp.within⟩

end

/-- With a limit of one: the peer asks twice for a slot index of 20, of which there are 16,
and the second request is rejected. -/
theorem naks_bounded_one :
    let u := run (CpUnit.counting LcpRest.bare IpcpRest.bare)
      (CpUnit.start lcpInit ipcpInit (0, 0) (default, default) () ())
      (.lcp (.fsm (.config ⟨false, false, false⟩ 3 10 2 1)) ::
        .ipcp (.config ⟨false, false, false⟩ 3 10 2 1) ::
        [.lcp (.fsm .lowerup), .ipcp .lowerup, .ipcp .open,
          .ipcp (.input [1, 1, 0, 10, 2, 6, 0, 45, 20, 1]),
          .ipcp (.input [1, 2, 0, 10, 2, 6, 0, 45, 20, 1])])
    naksSince (fun _ => true) u.ipcp.log = 1 ∧
      ∀ l, l <:+ u.ipcp.log → (naksSince (fun _ => true) l : Int) ≤ max 0 1 :=
  ⟨by decide +kernel, (naks_bounded LcpRest.bare IpcpRest.bare lcpInit ipcpInit (0, 0)
    (default, default) () () ⟨false, false, false⟩ ⟨false, false, false⟩ 3 3 10 10 2 2 1 1
    [.lcp (.fsm .lowerup), .ipcp .lowerup, .ipcp .open,
      .ipcp (.input [1, 1, 0, 10, 2, 6, 0, 45, 20, 1]),
      .ipcp (.input [1, 2, 0, 10, 2, 6, 0, 45, 20, 1])]
    ⟨rfl, rfl⟩ (by simp [CpCall.KeepsLimits])).2⟩

end VxWorks.Ppp
