import VxWorks.Ppp.NakOptions
import VxWorks.Ppp.Output
import VxWorks.Ppp.RejExact

/-!
# A correct Nak

Which options a Nak may have is a matter of the request it answers, and that is
not kept. It is in the history, though, and as long as it is `outstandingReq` our
own options have the types and the lengths it has: only a Nak or a Reject that
is accepted changes these, and then a new request goes out at once or none is
outstanding.

So a Nak of some of the options of the outstanding request is good in every
state that a run reaches, unless it has the old form of the address in it, which
`ipcp_nakci` does not know.
-/

namespace VxWorks.Ppp

open VxWorks.Lib

/-- The request that a Nak can be about: the last one, unless a Nak or a Reject of it has
been accepted. -/
def outstandingReq : List FsmEvent → Option (List UInt8)
  | [] => none
  | .sent p :: l => if p.code = confreq then some p.data else outstandingReq l
  | .accepted code _ :: l => if code = confack then outstandingReq l else none
  | _ :: l => outstandingReq l

/-- The outstanding request has its options in a row of these shapes. -/
def AskedFor (row : List (UInt8 × UInt8)) (l : List FsmEvent) : Prop :=
  ∀ req, outstandingReq l = some req → (shapes req).Sublist row

/-- Other packets are no requests. -/
theorem AskedFor.sent {row : List (UInt8 × UInt8)} {l : List FsmEvent} (h : AskedFor row l)
    (code id : UInt8) (data : List UInt8) (hcode : code ≠ confreq) :
    AskedFor row (.sent ⟨code, id, data⟩ :: l) := by
  have hsame : outstandingReq (.sent ⟨code, id, data⟩ :: l) = outstandingReq l := if_neg hcode
  intro req hreq
  exact h req (hsame.symm.trans hreq)

theorem ConfCode.code_ne (code : ConfCode) : code.code ≠ confreq := by
  cases code <;> decide

/-- And a request is outstanding itself. -/
theorem askedFor_confreq {row : List (UInt8 × UInt8)} {data : List UInt8}
    (h : (shapes data).Sublist row) (id : UInt8) (l : List FsmEvent) :
    AskedFor row (.sent ⟨confreq, id, data⟩ :: l) := by
  have hself : outstandingReq (.sent ⟨confreq, id, data⟩ :: l) = some data := if_pos rfl
  intro req hreq
  obtain rfl := Option.some.inj (hself.symm.trans hreq)
  exact h

theorem askedFor_nakrej {row : List (UInt8 × UInt8)} {code : UInt8}
    (h : code = confnak ∨ code = confrej) (id : UInt8) (l : List FsmEvent) :
    AskedFor row (.accepted code id :: l) := by
  have hnone : outstandingReq (.accepted code id :: l) = none := by
    refine if_neg ?_
    rcases h with rfl | rfl <;> decide
  intro req hreq
  cases hnone.symm.trans hreq

section

variable {σ : Type}

/-- While we negotiate, a request is made up from the options that we had before. -/
theorem preamble_env {peerMru : σ → Int} {hello : σ → Bool} {P : Port (World σ)}
    (hP : P = World.portOf peerMru hello World.record) {cb : LowerCallbacks (World σ)}
    {w : World σ} (retransmit : Bool) (h : w.f.state.negotiating = true) :
    (sconfreqHello P (sconfreqId P retransmit (sconfreqReset P cb w))).env = w.env := by
  subst hP
  have hreset : sconfreqReset (World.portOf peerMru hello World.record) cb w = w := if_pos h
  have hid : (sconfreqId (World.portOf peerMru hello World.record) retransmit w).env = w.env := by
    rw [sconfreqId]
    split <;> rfl
  rw [hreset, ← hid]
  rw [sconfreqHello]
  split <;> rfl

/-! ## LCP -/

namespace LcpRest

variable (a : LcpRest σ)

def Asked (w : World (LcpLayer σ)) : Prop := AskedFor (lcpShapes w.env.link.got) w.log

theorem recorded_eq : a.recorded = World.portOf (fun e => e.link.peerMru)
    (fun e => a.client && (e.link.want.passive || e.link.want.silent)) World.record := rfl

/-- A request has the options that `gotoptions` has afterwards, as far as there is room. -/
theorem sconfreq_sent (retransmit : Bool) (w : World (LcpLayer σ)) :
    ∃ (t : World (LcpLayer σ)) (id : UInt8),
      (fsmSconfreq a.recorded a.lower retransmit w).env = t.env ∧
      (fsmSconfreq a.recorded a.lower retransmit w).log =
        .sent ⟨confreq, id, lcpSconfreq t.env.link⟩ :: .sconfreq retransmit id :: t.log ∧
      (w.f.state.negotiating = true → t.env = w.env) :=
  ⟨sconfreqHello a.recorded (sconfreqId a.recorded retransmit
    (sconfreqReset a.recorded a.lower w)), _, rfl, rfl, preamble_env a.recorded_eq retransmit⟩

theorem lower_asked : a.lower.Keeps a.recorded Asked where
  set _ _ h := h
  untimeout h := h
  down h := h
  starting h := h
  sconfreq retransmit _ := by
    obtain ⟨t, id, henv, hlog, -⟩ := a.sconfreq_sent retransmit _
    rw [Asked]
    rw [henv, hlog]
    refine askedFor_confreq ?_ id _
    rw [lcpSconfreq, List.take_take, ← shapes_lcpAddci]
    exact (shapes_take _ _).sublist
  stermreq h := AskedFor.sent h _ _ _ (by decide)

theorem keeps_asked : a.Keeps World.record Asked where
  lower := a.lower_asked
  env _ h := h
  upOptions h := h

/-- `lcp_nakci` and `lcp_rejci` leave our options alone, or find what they have good. -/
theorem nakrej_asked {w : World (LcpLayer σ)} (h : Asked w) {code : UInt8}
    (hcode : code = confnak ∨ code = confrej) (id : UInt8) (inp : List UInt8) :
    let r := checkNakrej (a.callbacks₀ a.recorded) code inp w
    if r.1 then Asked (World.record (.accepted code id) r.2) else Asked r.2 := by
  intro r
  by_cases hgood : r.1 = true
  · rw [if_pos hgood]
    exact askedFor_nakrej hcode id _
  rw [if_neg hgood]
  rcases hcode with rfl | rfl
  · have hr : r = ((lcpNakci a.magic (w.f.state = .opened) w.env.link inp).1.getD false,
        onLink (fun _ => (lcpNakci a.magic (w.f.state = .opened) w.env.link inp).2) w) := rfl
    have hbad : (lcpNakci a.magic (w.f.state = .opened) w.env.link inp).1 ≠ some true := by
      intro hsome
      rw [hr, hsome] at hgood
      exact hgood rfl
    rw [hr]
    show AskedFor (lcpShapes (lcpNakci a.magic _ w.env.link inp).2.got) w.log
    rw [lcpNakci_got hbad]
    exact h
  · have hr : r = ((lcpRejci (w.f.state = .opened) w.env.link inp).1,
        onLink (fun _ => (lcpRejci (w.f.state = .opened) w.env.link inp).2) w) := rfl
    have hsame := (lcpRejci_spec (w.f.state = .opened) w.env.link inp).unchanged
      (.inl (Bool.eq_false_iff.mpr hgood))
    rw [hr]
    show AskedFor (lcpShapes (lcpRejci _ w.env.link inp).2.got) w.log
    rw [hsame]
    exact h

theorem callbacks₀_asked : (a.callbacks₀ a.recorded).Keeps a.recorded Asked where
  toKeeps := a.lower_asked
  timeout h := h
  up h := a.keeps_asked.goUp h
  finished h := a.keeps_asked.finished h
  retransmit h := h
  rcvd _ h := h
  accepted _ h := h
  ack _ h := h
  nakrej _ id inp hcode h := a.nakrej_asked h hcode id inp
  termack _ h := AskedFor.sent h _ _ _ (by decide)

theorem keepsRun_asked : a.KeepsRun World.record Asked where
  toKeeps := a.keeps_asked
  callbacks := a.callbacks₀_asked
  reply _ _ h := a.callbacks₀_asked.move (fun _ ht => ht) _
    (AskedFor.sent h _ _ _ (ConfCode.code_ne _))
  answer code _ _ hcode h := by
    refine AskedFor.sent h _ _ _ ?_
    rcases hcode with rfl | rfl | rfl <;> decide
  lowerOptions h := h

end LcpRest

/-! ## IPCP -/

namespace IpcpRest

variable (a : IpcpRest σ)

def Asked (w : World (IpcpLayer σ)) : Prop := AskedFor (ipcpShapes w.env.net.got) w.log

theorem recorded_eq : a.recorded =
    World.portOf (fun e => e.peerMru) (fun e => a.hello e.env) World.record := rfl

/-- A request has the options that `gotoptions` has afterwards. -/
theorem sconfreq_sent (retransmit : Bool) (w : World (IpcpLayer σ)) :
    ∃ (t : World (IpcpLayer σ)) (id : UInt8),
      (fsmSconfreq a.recorded a.lower retransmit w).env.net =
        (ipcpSconfreq t.env.peerMru t.env.net).1 ∧
      (fsmSconfreq a.recorded a.lower retransmit w).log =
        .sent ⟨confreq, id, (ipcpSconfreq t.env.peerMru t.env.net).2⟩ ::
          .sconfreq retransmit id :: t.log ∧
      (w.f.state.negotiating = true → t.env = w.env) :=
  ⟨sconfreqHello a.recorded (sconfreqId a.recorded retransmit
    (sconfreqReset a.recorded a.lower w)), _, rfl, rfl, preamble_env a.recorded_eq retransmit⟩

theorem lower_asked : a.lower.Keeps a.recorded Asked where
  set _ _ h := h
  untimeout h := h
  down h := h
  starting h := h
  sconfreq retransmit _ := by
    obtain ⟨t, id, hnet, hlog, -⟩ := a.sconfreq_sent retransmit _
    rw [Asked]
    rw [hnet, hlog]
    refine askedFor_confreq ?_ id _
    rw [← ciOctets_ipcpSconfreq, ciOctets_ipcpSent, shapes_ownOctets]
  stermreq h := AskedFor.sent h _ _ _ (by decide)

theorem keeps_asked : a.Keeps World.record Asked where
  lower := a.lower_asked
  env _ h := h
  his _ h := h

/-- `ipcp_nakci` and `ipcp_rejci` leave our options alone, or find what they have good. -/
theorem nakrej_asked {w : World (IpcpLayer σ)} (h : Asked w) {code : UInt8}
    (hcode : code = confnak ∨ code = confrej) (id : UInt8) (inp : List UInt8) :
    let r := checkNakrej (a.callbacks a.recorded) code inp w
    if r.1 then Asked (World.record (.accepted code id) r.2) else Asked r.2 := by
  intro r
  by_cases hgood : r.1 = true
  · rw [if_pos hgood]
    exact askedFor_nakrej hcode id _
  rw [if_neg hgood]
  rcases hcode with rfl | rfl
  · have hr : r = ((ipcpNakci (w.f.state = .opened) w.env.net inp).1,
        onNet (fun _ => (ipcpNakci (w.f.state = .opened) w.env.net inp).2) w) := rfl
    have hsame : (ipcpNakci (w.f.state = .opened) w.env.net inp).2 = w.env.net :=
      ipcpNakci_unchanged (.inl (Bool.eq_false_iff.mpr hgood))
    rw [hr, hsame]
    exact h
  · obtain ⟨u, hu⟩ : ∃ u, u = if ipcpRejAddr w.env.net.got inp then a.goDie a.recorded w else w :=
      ⟨_, rfl⟩
    have hasked : Asked u := by
      rw [hu]
      split
      · exact a.keeps_asked.goDie h
      · exact h
    have hr : r = ((ipcpRejci (u.f.state = .opened) u.env.net inp).1,
        onNet (fun _ => (ipcpRejci (u.f.state = .opened) u.env.net inp).2) u) := by
      rw [hu]
      rfl
    have hsame := (ipcpRejci_spec (u.f.state = .opened) u.env.net inp).unchanged
      (.inl (by rw [hr] at hgood; exact Bool.eq_false_iff.mpr hgood))
    rw [hr, hsame]
    exact hasked

theorem reply_asked {w : World (IpcpLayer σ)} (h : Asked w) (inp : List UInt8) :
    Asked (checkReq a.recorded (a.callbacks a.recorded) inp w).2.2 := by
  have hgot := (ipcpReqci_own w.env.net inp (decide (w.f.maxnakloops ≤ w.f.nakloops))).2.2
  show AskedFor (ipcpShapes (ipcpReqci w.env.net inp
    (decide (w.f.maxnakloops ≤ w.f.nakloops))).2.2.got) w.log
  rw [hgot]
  exact h

theorem callbacks_asked : (a.callbacks a.recorded).Keeps a.recorded Asked where
  toKeeps := a.lower_asked
  timeout h := h
  up h := a.keeps_asked.goUp h
  finished h := h
  retransmit h := h
  rcvd _ h := h
  accepted _ h := h
  ack _ h := h
  nakrej _ id inp hcode h := a.nakrej_asked h hcode id inp
  termack _ h := AskedFor.sent h _ _ _ (by decide)

theorem keepsRun_asked : a.KeepsRun World.record Asked where
  toKeeps := a.keeps_asked
  callbacks := a.callbacks_asked
  reply _ inp h := a.callbacks_asked.move (fun _ ht => ht) _
    (AskedFor.sent (a.reply_asked h inp) _ _ _ (ConfCode.code_ne _))
  coderej _ _ h := AskedFor.sent h _ _ _ (by decide)

end IpcpRest

end

/-! ## The next request -/

section

variable {σ : Type}

/-- A good Nak of an outstanding request is answered by a new one, from the options that the
Nak has left. -/
theorem nak_renegotiates {peerMru : σ → Int} {hello : σ → Bool} {P : Port (World σ)}
    (hP : P = World.portOf peerMru hello World.record) {cb : Callbacks (World σ)}
    {inp : List UInt8} {w : World σ} (hf : (checkNakrej cb confnak inp w).2.f = w.f)
    (hneg : w.f.state.negotiating = true) (hgood : (checkNakrej cb confnak inp w).1 = true) :
    ∃ u : World σ, u.f.state.negotiating = true ∧
      u.env = (checkNakrej cb confnak inp w).2.env ∧
      (fsmRconfnakrej P cb confnak w.f.reqid inp w).log =
        (fsmSconfreq P cb.toLowerCallbacks false u).log := by
  subst hP
  obtain ⟨t, ht⟩ : ∃ t : World σ, t = World.record (.accepted confnak w.f.reqid)
      { (checkNakrej cb confnak inp w).2 with
        f := { (checkNakrej cb confnak inp w).2.f with reqid := noReqid } } := ⟨_, rfl⟩
  have hstate : t.f.state.negotiating = true := by
    rw [ht, ← hneg, ← hf]
    rfl
  have henv : t.env = (checkNakrej cb confnak inp w).2.env := by
    rw [ht]
    rfl
  rcases fsmRconfnakrej_negotiating (World.portOf peerMru hello World.record) hgood ht hstate
    with h | h
  · exact ⟨{ t with pending := t.pending - 1 }, hstate, henv, congrArg World.log h⟩
  · exact ⟨t, hstate, henv, (congrArg World.log h).trans rfl⟩

namespace LcpRest

variable (a : LcpRest σ)

/-- `lcp_nakci` finds the Nak good, and a request that goes out in answer to it asks for the
characters in it too. -/
def NakRight (w : World (LcpLayer σ)) (p : List UInt8) : Prop :=
  (checkNakrej (a.callbacks a.recorded) confnak p w).1 = true ∧
  (w.f.state.negotiating = true → ∃ id data rest,
    (fsmRconfnakrej a.recorded (a.callbacks a.recorded) confnak w.f.reqid p w).log =
      .sent ⟨confreq, id, data⟩ :: rest ∧
    ∀ v, .opt ciAsyncmap cilenLong (put32 v) ∈ reqCis p.length p →
      .opt ciAsyncmap cilenLong (put32 (w.env.link.got.asyncmap ||| v)) ∈
        reqCis data.length data)

variable {a} {w : World (LcpLayer σ)} {p : List UInt8}

theorem nakRight_of_inRow (hmru : minmru.toNat ≤ w.env.link.peerMru)
    (hin : InRow (lcpShapes w.env.link.got) (reqCis p.length p)) : a.NakRight w p := by
  obtain ⟨hgood, hasync⟩ := lcpNakci_good a.magic (decide (w.f.state = .opened)) w.env.link hin
  have hproc : checkNakrej (a.callbacks a.recorded) confnak p w =
      (true, onLink (fun _ => (lcpNakci a.magic (w.f.state = .opened) w.env.link p).2) w) := by
    show ((lcpNakci a.magic (w.f.state = .opened) w.env.link p).1.getD false, _) = _
    rw [hgood]
    rfl
  refine ⟨by rw [hproc], ?_⟩
  intro hneg
  obtain ⟨u, hu, henv, hlog⟩ := nak_renegotiates a.recorded_eq
    (by rw [hproc]; rfl) hneg (by rw [hproc])
  obtain ⟨t, id, -, hsent, hsame⟩ := a.sconfreq_sent false u
  have hlink : t.env.link = (lcpNakci a.magic (w.f.state = .opened) w.env.link p).2 := by
    rw [hsame hu, henv, hproc]
    rfl
  refine ⟨id, _, _, hlog.trans hsent, ?_⟩
  intro v hv
  have hopened : decide (w.f.state = .opened) = false := by
    rw [decide_eq_false_iff_not]
    intro ho
    rw [ho] at hneg
    cases hneg
  obtain ⟨hasked, hvalue⟩ := hasync hopened v hv
  have hreq : lcpSconfreq t.env.link = (lcpCis t.env.link.got).flatMap ReqCi.octets := by
    rw [flatMap_lcpCis]
    refine ((lcpSconfreq_eq_iff _).mpr ?_).symm
    rw [hlink, lcpNakci_peerMru]
    exact (room_for_options hmru _ IpcpOptions.zero).1
  have hneg' : w.env.link.got.negAsyncmap = true := by
    simpa [lcpShapes, mem_optShape, ciMru, ciAsyncmap, ciAuthtype, ciQuality, ciMagicnumber,
      ciPcompression, ciAccompression] using hin.mem hv
  have hmem := mem_lcpCis_asyncmap (hasked.trans hneg')
  rw [hvalue] at hmem
  rw [hreq, reqCis_flatMap (lcpCis_whole _) (Nat.le_refl _), hlink]
  exact hmem

end LcpRest

namespace IpcpRest

variable (a : IpcpRest σ)

/-- The request has the values of the Nak that we are willing to take over: our address, and
in the old form the peer's, and a smaller slot index. -/
structure Carries (go : IpcpOptions) (p data : List UInt8) : Prop where
  addr : ∀ v, v ≠ 0 → .opt ciAddr cilenAddr (put32 v) ∈ reqCis p.length p →
    go.acceptLocal = true → .opt ciAddr cilenAddr (put32 v) ∈ reqCis data.length data
  addrs : ∀ ours theirs, ours ≠ 0 → theirs ≠ 0 →
    .opt ciAddrs cilenAddrs (put32 ours ++ put32 theirs) ∈ reqCis p.length p →
      ∃ ours' theirs', .opt ciAddrs cilenAddrs (put32 ours' ++ put32 theirs') ∈
          reqCis data.length data ∧
        (go.acceptLocal = true → ours' = ours) ∧ (go.acceptRemote = true → theirs' = theirs)
  slot : ∀ slot flag, .opt ciCompresstype cilenVj (put16 ipcpVjComp ++ [slot, flag]) ∈
      reqCis p.length p → slot < go.maxslotindex →
    ∃ proto flag', .opt ciCompresstype cilenVj (put16 proto ++ [slot, flag']) ∈
      reqCis data.length data

/-- `ipcp_nakci` finds the Nak good, and a request that goes out in answer to it carries its
values. -/
def NakRight (w : World (IpcpLayer σ)) (p : List UInt8) : Prop :=
  (checkNakrej (a.callbacks a.recorded) confnak p w).1 = true ∧
  (w.f.state.negotiating = true → ∃ id data rest,
    (fsmRconfnakrej a.recorded (a.callbacks a.recorded) confnak w.f.reqid p w).log =
      .sent ⟨confreq, id, data⟩ :: rest ∧ Carries w.env.net.got p data)

variable {a} {w : World (IpcpLayer σ)} {p : List UInt8}

theorem nakRight_of_read (hmru : minmru.toNat ≤ w.env.peerMru)
    (hin : InRow (ipcpRead w.env.net.got) (reqCis p.length p))
    (hnew : ∀ b, .opt ciAddrs cilenAddrs b ∉ reqCis p.length p) : a.NakRight w p := by
  obtain ⟨hgood, htaken⟩ := ipcpNakci_good (decide (w.f.state = .opened)) w.env.net hin
  have hproc : checkNakrej (a.callbacks a.recorded) confnak p w =
      (true, onNet (fun _ => (ipcpNakci (w.f.state = .opened) w.env.net p).2) w) := by
    show ((ipcpNakci (w.f.state = .opened) w.env.net p).1, _) = _
    rw [hgood]
  refine ⟨by rw [hproc], ?_⟩
  intro hneg
  obtain ⟨u, hu, henv, hlog⟩ := nak_renegotiates a.recorded_eq
    (by rw [hproc]; rfl) hneg (by rw [hproc])
  obtain ⟨t, id, -, hsent, hsame⟩ := a.sconfreq_sent false u
  have hnet : t.env.net = (ipcpNakci (w.f.state = .opened) w.env.net p).2 := by
    rw [hsame hu, henv, hproc]
    rfl
  have hpeer : t.env.peerMru = w.env.peerMru := by
    rw [hsame hu, henv, hproc]
    rfl
  have hopened : decide (w.f.state = .opened) = false := by
    rw [decide_eq_false_iff_not]
    intro ho
    rw [ho] at hneg
    cases hneg
  have hreq : (ipcpSconfreq t.env.peerMru t.env.net).2 =
      (ipcpCis t.env.net.got).flatMap ReqCi.octets := by
    have hroom := (room_for_options hmru LcpOptions.zero t.env.net.got).2
    have hlen := length_ownOctets t.env.net.got
    rw [ipcpSconfreq]
    dsimp only
    rw [hpeer, ipcpAddci_eq hroom, flatMap_ipcpCis, List.take_of_length_le]
    show (ownOctets t.env.net.got).length ≤ _
    omega
  obtain ⟨haddr, hslot⟩ := htaken hopened
  refine ⟨id, _, _, hlog.trans hsent, ?_⟩
  rw [hreq, hnet]
  have hread := reqCis_flatMap
    (ipcpCis_whole (ipcpNakci (w.f.state = .opened) w.env.net p).2.got) (Nat.le_refl _)
  refine ⟨?_, fun ours theirs _ _ hmem => absurd hmem (hnew _), ?_⟩
  · rw [hread]
    exact haddr
  · rw [hread]
    exact hslot

/-- The Nak may have all our options but the old form of the address. -/
theorem nakRight_iff (hmru : minmru.toNat ≤ w.env.peerMru)
    (hin : InRow (ipcpShapes w.env.net.got) (reqCis p.length p)) :
    a.NakRight w p ↔ ∀ b, .opt ciAddrs cilenAddrs b ∉ reqCis p.length p := by
  constructor
  · rintro ⟨hgood, -⟩ b hmem
    have hbad := ipcpNakci_bad (decide (w.f.state = .opened)) w.env.net hin hmem
    exact absurd (hbad.symm.trans hgood) nofun
  · exact fun hnew => nakRight_of_read hmru (hin.read hnew) hnew

end IpcpRest

end

/-! ## The peer's MRU -/

/-- Neither the peer's MRU nor one that `lcp_up` will take over is too small for our
options. -/
structure Roomy (low : Int) (o : Lcp) : Prop where
  peerMru : low ≤ o.peerMru
  his : o.his.negMru = true → minmru ≤ o.his.mru

theorem minmru_le_mtu : (minmru.toNat : Int) ≤ mtu := by decide

namespace LcpRest

variable {σ : Type} (a : LcpRest σ) {low : Int}

theorem lower_roomy (hlow : low ≤ minmru.toNat) :
    a.recorded.Ignores a.lower (fun w => Roomy low w.env.link) where
  put _ _ h := h
  timeout h := h
  client h := h
  sconfreq _ _ h := h
  sent _ _ h := h
  resetci h := ⟨hlow.trans minmru_le_mtu, h.his⟩
  addci _ hci h := by
    obtain rfl := Option.some.inj hci.symm
    exact h
  set _ h := h
  untimeout h := h
  down h := ⟨hlow.trans minmru_le_mtu, h.his⟩
  starting h := h

theorem keeps_roomy (hlow : low ≤ minmru.toNat) :
    a.Keeps World.record (fun w => Roomy low w.env.link) where
  lower := (a.lower_roomy hlow).lower
  env _ h := h
  upOptions h := ⟨lcpUpOptions_peerMru hlow h.peerMru h.his, h.his⟩

theorem nakrej_roomy {w : World (LcpLayer σ)} (h : Roomy low w.env.link) (code : UInt8)
    (inp : List UInt8) :
    Roomy low (checkNakrej (a.callbacks₀ a.recorded) code inp w).2.env.link := by
  unfold checkNakrej
  by_cases hnak : code = confnak
  · rw [if_pos hnak]
    obtain ⟨n, hsame | ⟨-, go, hgo⟩⟩ :=
      lcpNakci_cases a.magic (decide (w.f.state = .opened)) w.env.link inp
    · show Roomy low (lcpNakci a.magic _ w.env.link inp).2
      rw [hsame]
      exact ⟨h.peerMru, h.his⟩
    · show Roomy low (lcpNakci a.magic _ w.env.link inp).2
      rw [hgo]
      exact ⟨h.peerMru, h.his⟩
  · rw [if_neg hnak]
    show Roomy low (lcpRejci (w.f.state = .opened) w.env.link inp).2
    unfold lcpRejci
    dsimp only
    split
    · split
      · exact h
      · exact ⟨h.peerMru, h.his⟩
    · exact h

theorem callbacks₀_roomy (hlow : low ≤ minmru.toNat) :
    (a.callbacks₀ a.recorded).Keeps a.recorded (fun w => Roomy low w.env.link) where
  toKeeps := (a.lower_roomy hlow).lower
  timeout h := h
  up h := (a.keeps_roomy hlow).goUp h
  finished h := (a.keeps_roomy hlow).finished h
  retransmit h := h
  rcvd _ h := h
  accepted _ h := h
  ack _ h := h
  nakrej code _ inp _ h := by
    have hroom := a.nakrej_roomy h code inp
    dsimp only
    split <;> exact hroom
  termack _ h := h

theorem keepsRun_roomy (hlow : low ≤ minmru.toNat) :
    a.KeepsRun World.record (fun w => Roomy low w.env.link) where
  toKeeps := a.keeps_roomy hlow
  callbacks := a.callbacks₀_roomy hlow
  reply _ inp h := (a.callbacks₀_roomy hlow).move (fun _ ht => ht) _
    ⟨h.peerMru, lcpReqci_mru a.magic _ inp _⟩
  answer _ _ _ _ h := h
  lowerOptions h := ⟨hlow.trans minmru_le_mtu, h.his⟩

end LcpRest

/-! ## In a unit -/

section

variable {σ τ : Type}

theorem CpUnit.run_roomy (a : LcpRest σ) (b : IpcpRest τ) {low : Int} (hlow : low ≤ minmru.toNat)
    {u : CpUnit σ τ} (h : Roomy low u.lcp.env.link) (calls : List CpCall) :
    Roomy low (run (CpUnit.step a b) u calls).lcp.env.link := by
  induction calls generalizing u with
  | nil => exact h
  | cons call calls ih =>
      refine ih ?_
      cases call with
      | lcp call => exact (a.keepsRun_roomy hlow).step call (fun _ _ _ _ _ _ => h) h
      | ipcp call => exact h

/-- Once the lower layer has been up there is room. -/
theorem CpUnit.run_lowerup (a : LcpRest σ) (b : IpcpRest τ) {u : CpUnit σ τ}
    (hnew : u.lcp.env.link.his.negMru = false) {calls : List CpCall}
    (hup : .lcp (.fsm .lowerup) ∈ calls) :
    minmru.toNat ≤ (run (CpUnit.step a b) u calls).lcp.env.link.peerMru := by
  obtain ⟨before, after, rfl⟩ := List.append_of_mem hup
  have hbefore := CpUnit.run_roomy a b (Int.min_le_left minmru.toNat u.lcp.env.link.peerMru)
    ⟨Int.min_le_right _ _, by rw [hnew]; nofun⟩ before
  rw [run_append, run_cons]
  refine (CpUnit.run_roomy a b (Int.le_refl _) ?_ after).peerMru
  exact (a.lower_roomy (Int.le_refl _)).lowerup ⟨minmru_le_mtu, hbefore.his⟩

def CpUnit.Asked (u : CpUnit σ τ) : Prop := LcpRest.Asked u.lcp ∧ IpcpRest.Asked u.ipcp

theorem CpUnit.step_asked (a : LcpRest σ) (b : IpcpRest τ) {u : CpUnit σ τ} (h : u.Asked)
    (call : CpCall) :
    (CpUnit.step a b u call).Asked := by
  cases call with
  | lcp call => exact ⟨a.keepsRun_asked.step call (fun _ _ _ _ _ _ => h.1) h.1, h.2⟩
  | ipcp call => exact ⟨h.1, b.keepsRun_asked.step (w := u.net) call (fun _ _ _ _ _ _ => h.2) h.2⟩

/-- In every state of every run, a Nak of the outstanding request of LCP is good, and one of
the outstanding request of IPCP is good exactly if the old form of the address is not in it.
The request that goes out next has the values in it that we are willing to take over. The
options of the peer are zero at the start, and nothing is asked for before there is a
link. -/
theorem nak_accepted_iff (a : LcpRest σ) (b : IpcpRest τ) (link : Lcp) (net : Ipcp)
    (random : UInt8 × UInt8) (f : Fsm × Fsm) (env : σ) (env' : τ) (calls : List CpCall)
    (req p : List UInt8) (hnew : link.his = LcpOptions.zero)
    (hup : .lcp (.fsm .lowerup) ∈ calls) (hnak : NakOf req p) :
    let u := run (CpUnit.step a b) (CpUnit.start link net random f env env') calls
    (outstandingReq u.lcp.log = some req → a.NakRight u.lcp p) ∧
    (outstandingReq u.ipcp.log = some req →
      (b.NakRight u.net p ↔ ∀ octets, .opt ciAddrs cilenAddrs octets ∉ reqCis p.length p)) := by
  intro u
  have hnone : (CpUnit.start link net random f env env' : CpUnit σ τ).Asked := ⟨nofun, nofun⟩
  have hasked : u.Asked :=
    always_of_guarded (G := fun _ _ => True) CpUnit.Asked hnone
      (fun _ call h _ => CpUnit.step_asked a b h call) (fun _ _ _ => trivial) calls
      (List.prefix_refl _)
  have hmru : minmru.toNat ≤ u.lcp.env.link.peerMru :=
    CpUnit.run_lowerup a b (congrArg LcpOptions.negMru hnew) hup
  have hin := hnak.inRow
  refine ⟨?_, ?_⟩
  · intro hreq
    exact LcpRest.nakRight_of_inRow hmru ⟨hin.1, hin.2.trans (hasked.1 req hreq)⟩
  · intro hreq
    exact IpcpRest.nakRight_iff hmru ⟨hin.1, hin.2.trans (hasked.2 req hreq)⟩

end

def CpUnit.bare (calls : List CpCall) : CpUnit Unit Unit :=
  run (CpUnit.step LcpRest.bare IpcpRest.bare)
    (CpUnit.start lcpInit ipcpInit (0, 0) (default, default) () ()) calls

/-- The peer tells us our address, and has half of our slots. -/
theorem nak_accepted_usual :
    IpcpRest.bare.NakRight
      (CpUnit.bare [.lcp (.fsm .lowerup), .ipcp .lowerup, .ipcp .open]).net
      [3, 6, 10, 0, 0, 2, 2, 6, 0, 45, 7, 1] := by
  have hnak : NakOf [3, 6, 0, 0, 0, 0, 2, 6, 0, 45, 15, 1]
      [3, 6, 10, 0, 0, 2, 2, 6, 0, 45, 7, 1] :=
    ⟨[.opt 3 6 [0, 0, 0, 0], .opt 2 6 [0, 45, 15, 1]], by decide,
      .cons ⟨rfl, rfl⟩ (.cons ⟨rfl, rfl⟩ .nil)⟩
  obtain ⟨-, hipcp⟩ := nak_accepted_iff LcpRest.bare IpcpRest.bare lcpInit ipcpInit (0, 0)
    (default, default) () () [.lcp (.fsm .lowerup), .ipcp .lowerup, .ipcp .open] _ _
    rfl (by decide) hnak
  refine (hipcp (by decide +kernel)).mpr ?_
  intro octets hmem
  have hcis : reqCis 12 [3, 6, 10, 0, 0, 2, 2, 6, 0, 45, 7, 1] =
      [.opt 3 6 [10, 0, 0, 2], .opt 2 6 [0, 45, 7, 1]] := by decide
  rw [show ([3, 6, 10, 0, 0, 2, 2, 6, 0, 45, 7, 1] : List UInt8).length = 12 from rfl, hcis] at hmem
  simp [ciAddrs] at hmem

/-- The peer asks for the old form of the address, and then Naks what it gets. -/
theorem old_address_refused :
    ¬ ∀ calls req p, NakOf req p → outstandingReq (CpUnit.bare calls).ipcp.log = some req →
      IpcpRest.bare.NakRight (CpUnit.bare calls).net p := by
  intro h
  have hnak : NakOf [1, 10, 10, 0, 0, 2, 10, 0, 0, 1, 2, 6, 0, 45, 15, 1]
      [1, 10, 10, 0, 0, 3, 10, 0, 0, 1] :=
    ⟨[.opt 1 10 [10, 0, 0, 2, 10, 0, 0, 1]], by decide, .cons ⟨rfl, rfl⟩ .nil⟩
  have hgood := (h [.lcp (.fsm .lowerup), .ipcp .lowerup, .ipcp .open,
    .ipcp (.input [3, 1, 0, 14, 1, 10, 10, 0, 0, 2, 10, 0, 0, 1])] _ _ hnak
    (by decide +kernel)).1
  revert hgood
  decide +kernel

end VxWorks.Ppp
