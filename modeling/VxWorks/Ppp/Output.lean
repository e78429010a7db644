import VxWorks.Ppp.AckExact
import VxWorks.Ppp.Layers

/-!
# The buffer for outgoing control packets

`fsm_sdata` makes its packets up in `outpacket_buf`, which has room for a link
header and 1500 octets. The one thing that limits them is the peer's MRU, and
that may be larger: `lcp_reqci` refuses a small MRU and nothing else. So a
packet overflows the buffer if and only if there is too much data for it and
the peer has asked for more than 1500 octets.

Our own requests are short. What can be long is an answer: the Code-Reject of a
packet of that length, the Protocol-Reject, which has the protocol in front, and
for IPCP a Nak. `AnswerFits` says which packets find an answer that is not too
long, and in a run of both automata the buffer is kept exactly as long as all of
them do.
-/

namespace VxWorks.Ppp

open VxWorks.Lib

def dllheaderlen : Nat := 4

/-- `sizeof (outpacket_buf)`. -/
def outpacketBuf : Nat := 1500 + dllheaderlen

/-- The length field of a packet as it was laid out. -/
def lengthField : List UInt8 → Nat
  | _ :: _ :: l1 :: l0 :: _ => (get16 l1 l0).toNat
  | _ => 0

/-- The packet fits into the buffer behind the link header, and its length field is right. -/
def CpPacket.Fits (p : CpPacket) : Prop :=
  dllheaderlen + p.octets.length ≤ outpacketBuf ∧
    (lengthField p.octets : Int) = headerlen + p.data.length

/-- As much data as there is room for. -/
def outdata : Nat := 1496

theorem lengthField_octets (p : CpPacket) (h : p.data.length + 4 < 65536) :
    lengthField p.octets = p.data.length + 4 := by
  have hget := get16_put16 (UInt16.ofNat (p.data.length + 4))
  show (get16 (UInt16.ofNat (p.data.length + 4) >>> 8).toUInt8
    (UInt16.ofNat (p.data.length + 4)).toUInt8).toNat = _
  rw [hget]
  exact Nat.mod_eq_of_lt h

theorem fits_iff (p : CpPacket) : p.Fits ↔ p.data.length ≤ outdata := by
  have hlen : p.octets.length = p.data.length + 4 := by
    simp [CpPacket.octets, put16]
  rw [CpPacket.Fits, outpacketBuf, dllheaderlen, outdata]
  rw [hlen]
  constructor
  · rintro ⟨hroom, -⟩
    omega
  · intro h
    refine ⟨by omega, ?_⟩
    rw [lengthField_octets p (by omega), headerlen]
    push_cast
    omega

/-- What `fsm_sdata` is given is not too much for the buffer. -/
def Short (data : List UInt8) (peerMru : Int) : Prop :=
  data.length ≤ outdata ∨ peerMru ≤ mtu

theorem fits_sdata_iff (code id : UInt8) (data : List UInt8) (peerMru : Int) :
    (CpPacket.mk code id (data.take (peerMru - headerlen).toNat)).Fits ↔ Short data peerMru := by
  rw [fits_iff, List.length_take]
  rw [Short, outdata, mtu, headerlen]
  omega

/-! ## What does not overflow the buffer -/

/-- Every packet that went out fits. -/
def AllFit (l : List FsmEvent) : Prop := ∀ p, .sent p ∈ l → p.Fits

/-- A property of the history that no event can break but a long packet. -/
structure Tolerant (J : List FsmEvent → Prop) : Prop where
  event : ∀ {l} e, (∀ p, e ≠ .sent p) → J l → J (e :: l)
  short : ∀ {l} p, p.Fits → J l → J (.sent p :: l)

theorem allFit_tolerant : Tolerant AllFit where
  event e he h p hp := by
    rcases List.mem_cons.mp hp with heq | hmem
    · exact absurd heq.symm (he p)
    · exact h p hmem
  short q hq h p hp := by
    rcases List.mem_cons.mp hp with heq | hmem
    · cases heq
      exact hq
    · exact h p hmem

/-- What went out stays in the history. -/
theorem not_allFit_tolerant : Tolerant fun l => ¬ AllFit l where
  event e _ h hall := h fun p hp => hall p (List.mem_cons_of_mem e hp)
  short q _ h hall := h fun p hp => hall p (List.mem_cons_of_mem (.sent q) hp)

/-- A request that is short. The callbacks that make it up keep the history. -/
theorem sconfreq_tolerant {σ : Type} {P : Port (World σ)} {cb : LowerCallbacks (World σ)}
    {J : List FsmEvent → Prop} (hJ : Tolerant J) {w : World σ}
    (hfsm : ∀ f u, (P.put f u).log = u.log) (htimeout : ∀ u, (P.timeout u).log = u.log)
    (hnote : ∀ e u, (P.note e u).log = e :: u.log) (hreset : ∀ u, (cb.resetci u).log = u.log)
    (hci : ∀ c, cb.ci = some c → ∀ u room, (c.2 u room).1.log = u.log ∧
      (c.2 u room).2.length ≤ outdata) (retransmit : Bool) (h : J w.log) :
    J (fsmSconfreq P cb retransmit w).log := by
  have hreset' : J (sconfreqReset P cb w).log := by
    unfold sconfreqReset
    split
    · exact h
    · rw [Port.modify, hfsm, hreset]
      exact h
  have hid {u : World σ} (hu : J u.log) : J (sconfreqId P retransmit u).log := by
    unfold sconfreqId
    split
    · exact hu
    · rw [Port.modify, hfsm]
      exact hu
  have hclient {u : World σ} (hu : J u.log) : J (P.note .client u).log := by
    rw [hnote]
    exact hJ.event .client nofun hu
  have haddci {u : World σ} {c} (room : Int) (hc : cb.ci = some c) (hu : J u.log) :
      J (c.2 u room).1.log := by
    rw [(hci c hc u room).1]
    exact hu
  have hlog := sconfreq_made_up P (I := fun u : World σ => J u.log) hreset' hid hclient haddci
  have hlen (u : World σ) : (sconfreqCi P cb u).2.length ≤ outdata := by
    unfold sconfreqCi
    cases hc : cb.ci with
    | none => exact Nat.zero_le _
    | some c => exact (hci c hc u _).2
  unfold fsmSconfreq fsmSdata
  dsimp only
  rw [htimeout, Port.modify, hfsm, hnote, hnote]
  exact hJ.short _ ((fits_sdata_iff ..).mpr (.inl (hlen _))) (hJ.event _ nofun hlog)

section

variable {σ : Type} {J : List FsmEvent → Prop}

/-- The histories of a layer that has this one. -/
def Logs (J : List FsmEvent → Prop) (w : World σ) : Prop := J w.log

theorem Tolerant.empty (hJ : Tolerant J) {l : List FsmEvent} (code id : UInt8) (peerMru : Int)
    (h : J l) : J (.sent ⟨code, id, ([] : List UInt8).take (peerMru - headerlen).toNat⟩ :: l) :=
  hJ.short _ ((fits_sdata_iff ..).mpr (.inl (Nat.zero_le _))) h

/-! ### LCP -/

theorem length_lcpAddci_le (go : LcpOptions) (room : Int) :
    ((lcpAddci go).take room.toNat).length ≤ outdata := by
  have hlen := length_lcpAddci go
  have hroom := (room_for_options (show (minmru.toNat : Int) ≤ 128 by decide) go IpcpOptions.zero).1
  have hhead : max 0 ((128 : Int) - headerlen) = 124 := rfl
  rw [List.length_take]
  rw [outdata]
  omega

namespace LcpRest

variable (a : LcpRest σ)

theorem lower_logs (hJ : Tolerant J) : a.lower.Keeps a.recorded (Logs J) where
  set _ _ h := h
  untimeout h := h
  down h := hJ.event .down nofun h
  starting h := h
  sconfreq retransmit h := by
    refine sconfreq_tolerant hJ (fun _ _ => rfl) (fun _ => rfl) (fun _ _ => rfl)
      (fun _ => rfl) ?_ retransmit h
    intro c hc u room
    obtain rfl := Option.some.inj hc
    exact ⟨rfl, length_lcpAddci_le ..⟩
  stermreq h := hJ.empty _ _ _ h

theorem keeps_logs (hJ : Tolerant J) : a.Keeps World.record (Logs J) where
  lower := a.lower_logs hJ
  env _ h := h
  upOptions h := h

theorem nakrej_logs {w : World (LcpLayer σ)} (h : Logs J w) (code : UInt8) (inp : List UInt8) :
    Logs J (checkNakrej (a.callbacks₀ a.recorded) code inp w).2 := by
  unfold checkNakrej
  by_cases hc : code = confnak
  · rw [if_pos hc]
    exact h
  · rw [if_neg hc]
    exact h

theorem callbacks₀_logs (hJ : Tolerant J) :
    (a.callbacks₀ a.recorded).Keeps a.recorded (Logs J) where
  toKeeps := a.lower_logs hJ
  timeout h := h
  up h := (a.keeps_logs hJ).goUp (hJ.event .up nofun h)
  finished h := (a.keeps_logs hJ).finished h
  retransmit h := h
  rcvd p h := hJ.event (.rcvd p) nofun h
  accepted id h := hJ.event (.accepted confack id) nofun h
  ack _ h := h
  nakrej code id inp _ h := by
    dsimp only
    split
    · exact hJ.event (.accepted code id) nofun (a.nakrej_logs h code inp)
    · exact a.nakrej_logs h code inp
  termack _ h := hJ.empty _ _ _ h

theorem callbacks_logs (hJ : Tolerant J) :
    (a.callbacks a.recorded).Keeps a.recorded (Logs J) :=
  { a.callbacks₀_logs hJ with }

end LcpRest

/-! ### IPCP -/

theorem length_ipcpAddci_short (o : Ipcp) (room : Int) : (ipcpAddci o room).2.length ≤ outdata := by
  have haddr : (addrOctets (ipcpFallback o)).length ≤ 10 := by
    rw [length_addrOctets]
    split <;> omega
  have hvj : (vjOctets (ipcpFallback o)).length ≤ 6 := by
    rw [length_vjOctets]
    split <;> omega
  have hle : ∀ (b : Bool) (l : List UInt8), (if b then l else []).length ≤ l.length := by
    intro b l
    cases b with
    | false => exact Nat.zero_le _
    | true => exact Nat.le_refl _
  simp only [ipcpAddci, List.length_append]
  exact (Nat.add_le_add ((hle _ _).trans haddr) ((hle _ _).trans hvj)).trans (by decide)

namespace IpcpRest

variable (a : IpcpRest σ)

theorem lower_logs (hJ : Tolerant J) : a.lower.Keeps a.recorded (Logs J) where
  set _ _ h := h
  untimeout h := h
  down h := hJ.event .down nofun h
  starting h := h
  sconfreq retransmit h := by
    refine sconfreq_tolerant hJ (fun _ _ => rfl) (fun _ => rfl) (fun _ _ => rfl)
      (fun _ => rfl) ?_ retransmit h
    intro c hc u room
    obtain rfl := Option.some.inj hc
    exact ⟨rfl, length_ipcpAddci_short ..⟩
  stermreq h := hJ.empty _ _ _ h

theorem keeps_logs (hJ : Tolerant J) : a.Keeps World.record (Logs J) where
  lower := a.lower_logs hJ
  env _ h := h
  his _ h := h

theorem rejected_logs (hJ : Tolerant J) {w : World (IpcpLayer σ)} (h : Logs J w)
    (p : List UInt8) : Logs J (a.rejected a.recorded w p).2 := by
  rw [rejected]
  dsimp only
  split
  · exact (a.keeps_logs hJ).goDie h
  · exact h

theorem nakrej_logs (hJ : Tolerant J) {w : World (IpcpLayer σ)} (h : Logs J w) (code : UInt8)
    (inp : List UInt8) : Logs J (checkNakrej (a.callbacks a.recorded) code inp w).2 := by
  unfold checkNakrej
  by_cases hc : code = confnak
  · rw [if_pos hc]
    exact h
  · rw [if_neg hc]
    exact a.rejected_logs hJ h inp

theorem callbacks_logs (hJ : Tolerant J) :
    (a.callbacks a.recorded).Keeps a.recorded (Logs J) where
  toKeeps := a.lower_logs hJ
  timeout h := h
  up h := (a.keeps_logs hJ).goUp (hJ.event .up nofun h)
  finished h := h
  retransmit h := h
  rcvd p h := hJ.event (.rcvd p) nofun h
  accepted id h := hJ.event (.accepted confack id) nofun h
  ack _ h := h
  nakrej code id inp _ h := by
    dsimp only
    split
    · exact hJ.event (.accepted code id) nofun (a.nakrej_logs hJ h code inp)
    · exact a.nakrej_logs hJ h code inp
  termack _ h := hJ.empty _ _ _ h

end IpcpRest

end

/-! ## What may -/

section

variable {S : Type} (P : Port S) (cb : Callbacks S)

/-- The state in which a Configure-Request is judged, where it is. -/
def judgedIn (s : S) : Option S :=
  match P.state s with
  | .closed | .closing | .stopping => none
  | .opened =>
      some (fsmSconfreq P cb.toLowerCallbacks false (goDown P cb.toLowerCallbacks s))
  | .stopped => some (P.setState .reqsent (fsmSconfreq P cb.toLowerCallbacks false s))
  | _ => some s

/-- The reply to a Configure-Request is not too long. -/
def ReplyFits (inp : List UInt8) (s : S) : Prop :=
  ∀ t, judgedIn P cb s = some t →
    Short (checkReq P cb inp t).2.1 (P.peerMru (checkReq P cb inp t).2.2)

theorem fsmRconfreq_cases (id : UInt8) (inp : List UInt8) (s : S) :
    (judgedIn P cb s = none ∧
      (fsmRconfreq P cb id inp s = fsmSdata P termack id [] s ∨
        fsmRconfreq P cb id inp s = s)) ∨
    ∃ t, judgedIn P cb s = some t ∧
      fsmRconfreq P cb id inp s = rconfreqReply P cb id inp t ∧
      (t = s ∨ t = fsmSconfreq P cb.toLowerCallbacks false (goDown P cb.toLowerCallbacks s) ∨
        t = P.setState .reqsent (fsmSconfreq P cb.toLowerCallbacks false s)) := by
  unfold judgedIn fsmRconfreq
  cases P.state s with
  | closed => exact .inl ⟨rfl, .inl rfl⟩
  | closing => exact .inl ⟨rfl, .inr rfl⟩
  | stopping => exact .inl ⟨rfl, .inr rfl⟩
  | opened => exact .inr ⟨_, rfl, rfl, .inr (.inl rfl)⟩
  | stopped => exact .inr ⟨_, rfl, rfl, .inr (.inr rfl)⟩
  | _ => exact .inr ⟨_, rfl, rfl, .inl rfl⟩

end

section

variable {σ : Type} {P : Port (World σ)} {cb : Callbacks (World σ)}

/-- A packet goes out, and what comes after it does not bring another one that is too
long: then everything depends on this one. -/
theorem answer_iff (f : World σ → World σ)
    (hf : ∀ {J}, Tolerant J → ∀ u, Logs J u → Logs J (f u)) {u : World σ}
    (h : Logs AllFit u) (p : CpPacket) :
    Logs AllFit (f { u with log := .sent p :: u.log }) ↔ p.Fits := by
  constructor
  · intro hall
    by_contra hlong
    refine hf not_allFit_tolerant { u with log := .sent p :: u.log } ?_ hall
    intro hbad
    exact hlong (hbad p List.mem_cons_self)
  · exact fun hfit => hf allFit_tolerant _ (allFit_tolerant.short p hfit h)

theorem rconfreq_fit_iff (hP : P.note = World.record)
    (kept : ∀ {J}, Tolerant J → cb.Keeps P (Logs J))
    (hfsm : ∀ f u, (P.put f u).log = u.log)
    (hreq : ∀ inp u, (checkReq P cb inp u).2.2.log = u.log) {w : World σ}
    (h : Logs AllFit w) (id : UInt8) (inp : List UInt8) :
    Logs AllFit (fsmRconfreq P cb id inp w) ↔ ReplyFits P cb inp w := by
  rcases fsmRconfreq_cases P cb id inp w with ⟨hnone, heq | heq⟩ | ⟨t, ht, heq, hcases⟩
  · rw [heq]
    refine iff_of_true ((kept allFit_tolerant).termack id h) ?_
    intro t ht
    rw [hnone] at ht
    cases ht
  · rw [heq]
    refine iff_of_true h ?_
    intro t ht
    rw [hnone] at ht
    cases ht
  · have hlog : Logs AllFit t := by
      have k := (kept allFit_tolerant).toKeeps
      rcases hcases with rfl | rfl | rfl
      · exact h
      · exact k.sconfreq false (k.down h)
      · exact k.set rfl rfl (k.sconfreq false h)
    have hjudged : Logs AllFit (checkReq P cb inp t).2.2 := by
      rw [Logs]
      rw [hreq]
      exact hlog
    have hset : ∀ {J : List FsmEvent → Prop} {u : World σ} (f : Fsm), Logs J u →
        Logs J (P.put f u) := by
      intro J u f hu
      rw [Logs]
      rw [hfsm]
      exact hu
    have hsent : fsmRconfreq P cb id inp w = rconfreqMove P cb (checkReq P cb inp t).1
        { (checkReq P cb inp t).2.2 with log := .sent ⟨(checkReq P cb inp t).1.code, id,
            (checkReq P cb inp t).2.1.take
              (P.peerMru (checkReq P cb inp t).2.2 - headerlen).toNat⟩ ::
          (checkReq P cb inp t).2.2.log } := by
      rw [heq]
      rw [rconfreqReply, fsmSdata]
      rw [hP]
      rfl
    rw [hsent, answer_iff (rconfreqMove P cb _) (fun hJ u hu => (kept hJ).move hset _ hu) hjudged,
      fits_sdata_iff]
    rw [ReplyFits]
    rw [ht]
    exact ⟨fun hs u hu => by obtain rfl := Option.some.inj hu; exact hs, fun hs => hs t rfl⟩

end

section

variable {σ : Type} (P : Port (World σ)) (A : World σ → CpPacket → Prop)

/-- The packet, where it gets as far as its code, finds an answer that is not too long. -/
def InputFits (w : World σ) (inpacket : List UInt8) : Prop :=
  ∀ p, parseHeader inpacket = some p → P.state w ≠ .initial → P.state w ≠ .starting →
    A (World.record (.rcvd p) w) p

theorem input_fits_iff {P} {A} {cb : Callbacks (World σ)} (hP : P.note = World.record)
    (hdispatch : ∀ w p, Logs AllFit w → (Logs AllFit (fsmDispatch P cb p w) ↔ A w p))
    {w : World σ} (h : Logs AllFit w) (inpacket : List UInt8) :
    Logs AllFit (fsmInput P cb inpacket w) ↔ InputFits P A w inpacket := by
  unfold fsmInput InputFits
  cases hp : parseHeader inpacket with
  | none => exact iff_of_true h fun _ hq => absurd hq nofun
  | some p =>
      have hrcvd : Logs AllFit (World.record (.rcvd p) w) :=
        allFit_tolerant.event (.rcvd p) nofun h
      dsimp only
      by_cases hs : P.state w = .initial ∨ P.state w = .starting
      · rw [if_pos hs]
        refine iff_of_true h ?_
        intro q _ hi hst
        exact absurd hs (not_or.mpr ⟨hi, hst⟩)
      · rw [if_neg hs, hP]
        refine (hdispatch _ p hrcvd).trans ⟨?_, ?_⟩
        · intro hf q hq _ _
          obtain rfl := Option.some.inj hq
          exact hf
        · intro hf
          exact hf p rfl (not_or.mp hs).1 (not_or.mp hs).2

end

/-- The codes of `fsm_input`. -/
def fsmCodes : List UInt8 := [confreq, confack, confnak, confrej, termreq, termack, coderej]

/-- And those of `lcp_extcode`. -/
def lcpCodes : List UInt8 := fsmCodes ++ [protrej, echoreq, echorep, discreq]

section

variable {σ : Type}

/-! ### What may in LCP -/

namespace LcpRest

variable (a : LcpRest σ)

/-- The answer to a packet is not too long. -/
def AnswerFits (w : World (LcpLayer σ)) (p : CpPacket) : Prop :=
  (p.code = confreq → ReplyFits a.recorded (a.callbacks a.recorded) p.data w) ∧
  (p.code = echoreq → w.f.state = .opened →
    Short (a.echoData p.data w) w.env.link.peerMru) ∧
  (p.code ∉ lcpCodes → Short p.octets w.env.link.peerMru)

variable {a} {w : World (LcpLayer σ)}

theorem known_fits {p : CpPacket} (hmem : p.code ∈ lcpCodes) (hreq : p.code ≠ confreq)
    (hecho : p.code ≠ echoreq) : a.AnswerFits w p :=
  ⟨fun hc => absurd hc hreq, fun hc => absurd hc hecho, fun hn => absurd hmem hn⟩

theorem checkExt_logs {J : List FsmEvent → Prop} (hJ : Tolerant J) (h : Logs J w)
    {p : CpPacket} (hecho : p.code ≠ echoreq) :
    Logs J (checkExt (a.callbacks a.recorded) p w).2 := by
  show Logs J (a.extcode a.recorded w p).2
  rw [extcode]
  split
  · dsimp only
    rw [rprotrej]
    split
    · exact h
    · split
      · exact h
      · split
        · exact (a.callbacks₀_logs hJ).protreject h
        · exact h
  · split
    · exact h
    · split <;> exact h

theorem checkExt_known {p : CpPacket} (hcode : p.code = protrej ∨ p.code = echoreq ∨
    p.code = echorep ∨ p.code = discreq) :
    (checkExt (a.callbacks a.recorded) p w).1 = true := by
  show (a.extcode a.recorded w p).1 = true
  rw [extcode]
  split
  · rfl
  · split
    · rfl
    · split
      · rfl
      · split
        · rfl
        · next hp he hr hd =>
            rcases hcode with hc | hc | hc | hc
            · exact absurd hc hp
            · exact absurd hc he
            · exact absurd hc hr
            · exact absurd hc hd

theorem echo_fits_iff (h : Logs AllFit w) {p : CpPacket} (hecho : p.code = echoreq) :
    Logs AllFit (checkExt (a.callbacks a.recorded) p w).2 ↔ a.AnswerFits w p := by
  have hne : p.code ≠ protrej := by rw [hecho]; decide
  have hfits : a.AnswerFits w p ↔
      (w.f.state = .opened → Short (a.echoData p.data w) w.env.link.peerMru) := by
    refine ⟨fun hf => hf.2.1 hecho, fun hf => ⟨?_, fun _ => hf, ?_⟩⟩
    · intro hc
      exact absurd (hc.symm.trans hecho) (by decide)
    · intro hn
      exact absurd (by rw [hecho]; decide) hn
  rw [hfits]
  show Logs AllFit (a.extcode a.recorded w p).2 ↔ _
  rw [extcode]
  rw [if_neg hne, if_pos hecho]
  dsimp only
  by_cases hs : w.f.state = .opened
  · rw [if_neg (not_not_intro hs)]
    have hsent := answer_iff (fun u => u) (fun _ _ hu => hu) h
      ⟨echorep, p.id, (a.echoData p.data w).take (w.env.link.peerMru - headerlen).toNat⟩
    refine (hsent.trans (fits_sdata_iff ..)).trans ⟨fun hshort _ => hshort, fun hf => hf hs⟩
  · rw [if_pos hs]
    exact ⟨fun _ ho => absurd ho hs, fun _ => h⟩

theorem unknown_fits_iff {u : World (LcpLayer σ)} (h : Logs AllFit w) {p : CpPacket}
    (hn : p.code ∉ lcpCodes) (hlog : u.log = w.log)
    (hmru : u.env.link.peerMru = w.env.link.peerMru) (id : UInt8) :
    Logs AllFit (fsmSdata a.recorded coderej id p.octets u) ↔ a.AnswerFits w p := by
  have hfits : a.AnswerFits w p ↔ Short p.octets w.env.link.peerMru := by
    refine ⟨fun hf => hf.2.2 hn, fun hf => ⟨?_, ?_, fun _ => hf⟩⟩
    · intro hc
      exact absurd (by rw [hc]; decide) hn
    · intro hc
      exact absurd (by rw [hc]; decide) hn
  have hu : Logs AllFit u := by
    rw [Logs]
    rw [hlog]
    exact h
  rw [hfits, ← hmru, ← fits_sdata_iff coderej id]
  exact answer_iff (fun u => u) (fun _ _ hu => hu) hu _

theorem dispatch_fits_iff (h : Logs AllFit w) (p : CpPacket) :
    Logs AllFit (fsmDispatch a.recorded (a.callbacks a.recorded) p w) ↔ a.AnswerFits w p := by
  have k := a.callbacks_logs allFit_tolerant
  rw [fsmDispatch]
  by_cases h₁ : p.code = confreq
  · rw [if_pos h₁, rconfreq_fit_iff rfl (fun hJ => a.callbacks_logs hJ) (fun _ _ => rfl)
      (fun _ _ => rfl) h]
    refine ⟨fun hf => ⟨fun _ => hf, ?_, ?_⟩, fun hf => hf.1 h₁⟩
    · intro hc
      exact absurd (h₁.symm.trans hc) (by decide)
    · intro hn
      exact absurd (by rw [h₁]; decide) hn
  rw [if_neg h₁]
  by_cases h₂ : p.code = confack
  · rw [if_pos h₂]
    exact iff_of_true (k.rconfack p.id p.data h)
      (known_fits (by rw [h₂]; decide) h₁ (by rw [h₂]; decide))
  rw [if_neg h₂]
  by_cases h₃ : p.code = confnak ∨ p.code = confrej
  · rw [if_pos h₃]
    refine iff_of_true (k.rconfnakrej h₃ p.id p.data h) (known_fits ?_ h₁ ?_)
    · rcases h₃ with h₃ | h₃ <;> rw [h₃] <;> decide
    · rcases h₃ with h₃ | h₃ <;> rw [h₃] <;> decide
  rw [if_neg h₃]
  by_cases h₄ : p.code = termreq
  · rw [if_pos h₄]
    exact iff_of_true (k.rtermreq p.id h)
      (known_fits (by rw [h₄]; decide) h₁ (by rw [h₄]; decide))
  rw [if_neg h₄]
  by_cases h₅ : p.code = termack
  · rw [if_pos h₅]
    exact iff_of_true (k.rtermack h) (known_fits (by rw [h₅]; decide) h₁ (by rw [h₅]; decide))
  rw [if_neg h₅]
  by_cases h₆ : p.code = coderej
  · rw [if_pos h₆]
    exact iff_of_true (k.rcoderej p.data h)
      (known_fits (by rw [h₆]; decide) h₁ (by rw [h₆]; decide))
  rw [if_neg h₆]
  dsimp only
  by_cases h₇ : p.code = protrej ∨ p.code = echoreq ∨ p.code = echorep ∨ p.code = discreq
  · rw [if_pos (checkExt_known h₇)]
    by_cases hecho : p.code = echoreq
    · exact echo_fits_iff h hecho
    · refine iff_of_true (checkExt_logs allFit_tolerant h hecho) (known_fits ?_ h₁ hecho)
      rcases h₇ with hc | hc | hc | hc <;> rw [hc] <;> decide
  · have hn : p.code ∉ lcpCodes := by
      simp only [lcpCodes, fsmCodes, List.cons_append, List.nil_append, List.mem_cons,
        List.not_mem_nil, or_false]
      tauto
    have hext : checkExt (a.callbacks a.recorded) p w = (false, w) := by
      show a.extcode a.recorded w p = (false, w)
      simp only [not_or] at h₇
      rw [extcode]
      rw [if_neg h₇.1, if_neg h₇.2.1, if_neg h₇.2.2.1, if_neg h₇.2.2.2]
    rw [hext, if_neg Bool.false_ne_true]
    exact unknown_fits_iff h hn rfl rfl _

/-- What is received finds an answer that is not too long. -/
def Fit (a : LcpRest σ) (w : World (LcpLayer σ)) : LcpCall → Prop
  | .fsm (.input inpacket) => InputFits a.recorded a.AnswerFits w inpacket
  | .unknown protocol inpacket => w.f.state = .opened →
      Short (put16 protocol ++ inpacket) w.env.link.peerMru
  | _ => True

theorem sprotrej_fits_iff (h : Logs AllFit w) (protocol : UInt16) (inpacket : List UInt8) :
    Logs AllFit (sprotrej a.recorded (put16 protocol ++ inpacket) w) ↔
      a.Fit w (.unknown protocol inpacket) := by
  unfold sprotrej Fit
  by_cases hs : w.f.state = .opened
  · rw [if_neg (not_not_intro hs)]
    refine (answer_iff (fun u => u) (fun _ _ hu => hu) h _).trans ?_
    exact (fits_sdata_iff ..).trans ⟨fun hf _ => hf, fun hf => hf hs⟩
  · rw [if_pos hs]
    exact iff_of_true h fun ho => absurd ho hs

theorem step_fits_iff (h : Logs AllFit w) (call : LcpCall) :
    Logs AllFit (a.step a.recorded w call) ↔ a.Fit w call := by
  have k := a.callbacks_logs allFit_tolerant
  match call with
  | .unknown protocol inpacket => exact sprotrej_fits_iff h protocol inpacket
  | .fsm (.input inpacket) =>
      exact input_fits_iff rfl (fun _ p h => dispatch_fits_iff h p) h inpacket
  | .fsm .lowerup => exact iff_of_true (k.toKeeps.lowerup h) trivial
  | .fsm .lowerdown => exact iff_of_true (k.toKeeps.lowerdown h) trivial
  | .fsm .open => exact iff_of_true (k.toKeeps.fsmOpen h) trivial
  | .fsm .close => exact iff_of_true ((a.keeps_logs allFit_tolerant).close h) trivial
  | .fsm .timeout => exact iff_of_true (k.fsmTimeout h) trivial
  | .fsm .protreject => exact iff_of_true (k.protreject h) trivial
  | .fsm (.config _ _ _ _ _) => exact iff_of_true h trivial

end LcpRest

/-! ### What may in IPCP -/

namespace IpcpRest

variable (a : IpcpRest σ)

def AnswerFits (w : World (IpcpLayer σ)) (p : CpPacket) : Prop :=
  (p.code = confreq → ReplyFits a.recorded (a.callbacks a.recorded) p.data w) ∧
  (p.code ∉ fsmCodes → Short p.octets w.env.peerMru)

def Fit (w : World (IpcpLayer σ)) : FsmCall → Prop
  | .input inpacket => InputFits a.recorded a.AnswerFits w inpacket
  | _ => True

variable {a} {w : World (IpcpLayer σ)}

theorem known_fits {p : CpPacket} (hmem : p.code ∈ fsmCodes) (hreq : p.code ≠ confreq) :
    a.AnswerFits w p :=
  ⟨fun hc => absurd hc hreq, fun hn => absurd hmem hn⟩

theorem dispatch_fits_iff (h : Logs AllFit w) (p : CpPacket) :
    Logs AllFit (fsmDispatch a.recorded (a.callbacks a.recorded) p w) ↔ a.AnswerFits w p := by
  have k := a.callbacks_logs allFit_tolerant
  rw [fsmDispatch]
  by_cases h₁ : p.code = confreq
  · rw [if_pos h₁, rconfreq_fit_iff rfl (fun hJ => a.callbacks_logs hJ) (fun _ _ => rfl)
      (fun _ _ => rfl) h]
    refine ⟨fun hf => ⟨fun _ => hf, ?_⟩, fun hf => hf.1 h₁⟩
    intro hn
    exact absurd (by rw [h₁]; decide) hn
  rw [if_neg h₁]
  by_cases h₂ : p.code = confack
  · rw [if_pos h₂]
    exact iff_of_true (k.rconfack p.id p.data h) (known_fits (by rw [h₂]; decide) h₁)
  rw [if_neg h₂]
  by_cases h₃ : p.code = confnak ∨ p.code = confrej
  · rw [if_pos h₃]
    refine iff_of_true (k.rconfnakrej h₃ p.id p.data h) (known_fits ?_ h₁)
    rcases h₃ with h₃ | h₃ <;> rw [h₃] <;> decide
  rw [if_neg h₃]
  by_cases h₄ : p.code = termreq
  · rw [if_pos h₄]
    exact iff_of_true (k.rtermreq p.id h) (known_fits (by rw [h₄]; decide) h₁)
  rw [if_neg h₄]
  by_cases h₅ : p.code = termack
  · rw [if_pos h₅]
    exact iff_of_true (k.rtermack h) (known_fits (by rw [h₅]; decide) h₁)
  rw [if_neg h₅]
  by_cases h₆ : p.code = coderej
  · rw [if_pos h₆]
    exact iff_of_true (k.rcoderej p.data h) (known_fits (by rw [h₆]; decide) h₁)
  rw [if_neg h₆]
  have hn : p.code ∉ fsmCodes := by
    simp only [fsmCodes, List.mem_cons, List.not_mem_nil, or_false]
    tauto
  have hfits : a.AnswerFits w p ↔ Short p.octets w.env.peerMru :=
    ⟨fun hf => hf.2 hn, fun hf => ⟨fun hc => absurd hc h₁, fun _ => hf⟩⟩
  rw [hfits, ← fits_sdata_iff coderej (w.f.id + 1)]
  exact answer_iff (fun u => u) (fun _ _ hu => hu)
    (u := { w with f := { w.f with id := w.f.id + 1 } }) h _

theorem step_fits_iff (h : Logs AllFit w) (call : FsmCall) :
    Logs AllFit (a.step a.recorded w call) ↔ a.Fit w call := by
  have k := a.callbacks_logs allFit_tolerant
  cases call with
  | lowerup => exact iff_of_true (k.toKeeps.lowerup h) trivial
  | lowerdown => exact iff_of_true (k.toKeeps.lowerdown h) trivial
  | «open» => exact iff_of_true (k.toKeeps.fsmOpen h) trivial
  | close => exact iff_of_true ((a.keeps_logs allFit_tolerant).close h) trivial
  | timeout => exact iff_of_true (k.fsmTimeout h) trivial
  | protreject => exact iff_of_true (k.protreject h) trivial
  | config _ _ _ _ _ => exact iff_of_true h trivial
  | input inpacket => exact input_fits_iff rfl (fun _ p h => dispatch_fits_iff h p) h inpacket

end IpcpRest

end

/-! ## A unit -/

/-- The two automata that send with `fsm_sdata`. -/
structure CpUnit (σ τ : Type) where
  lcp : World (LcpLayer σ)
  ipcp : World (IpcpLayer τ)

inductive CpCall where
  | lcp (call : LcpCall)
  | ipcp (call : FsmCall)
deriving DecidableEq, Repr

section

variable {σ τ : Type}

def CpUnit.start (link : Lcp) (net : Ipcp) (random : UInt8 × UInt8) (f : Fsm × Fsm) (env : σ)
    (env' : τ) : CpUnit σ τ where
  lcp := World.start random.1 f.1 ⟨link, env⟩
  ipcp := World.start random.2 f.2 ⟨net, link.peerMru, [], env'⟩

/-- IPCP, with the `peer_mru` that LCP keeps. -/
def CpUnit.net (u : CpUnit σ τ) : World (IpcpLayer τ) :=
  { u.ipcp with env := { u.ipcp.env with peerMru := u.lcp.env.link.peerMru } }

variable (a : LcpRest σ) (b : IpcpRest τ)

def CpUnit.step (u : CpUnit σ τ) : CpCall → CpUnit σ τ
  | .lcp call => { u with lcp := a.step a.recorded u.lcp call }
  | .ipcp call => { u with ipcp := b.step b.recorded u.net call }

theorem allFit_nil : AllFit [] := by
  intro p hp
  cases hp

/-- All that the unit has sent fits. -/
def CpUnit.OutputFits (u : CpUnit σ τ) : Prop := AllFit u.lcp.log ∧ AllFit u.ipcp.log

/-- What is received finds an answer that is not too long. -/
def CpUnit.Fit (u : CpUnit σ τ) : CpCall → Prop
  | .lcp call => a.Fit u.lcp call
  | .ipcp call => b.Fit u.net call

theorem CpUnit.step_fits_iff {u : CpUnit σ τ} (h : u.OutputFits) (call : CpCall) :
    (CpUnit.step a b u call).OutputFits ↔ CpUnit.Fit a b u call := by
  cases call with
  | lcp call => exact (and_iff_left h.2).trans (LcpRest.step_fits_iff h.1 call)
  | ipcp call => exact (and_iff_right h.1).trans (IpcpRest.step_fits_iff (w := u.net) h.2 call)

/-- In every run of a unit, all that goes out fits into the buffer and has the right length
field, exactly if no packet comes in whose answer is too long. -/
theorem output_fits_iff (a : LcpRest σ) (b : IpcpRest τ) (link : Lcp) (net : Ipcp)
    (random : UInt8 × UInt8) (f : Fsm × Fsm) (env : σ) (env' : τ) (calls : List CpCall) :
    Always (CpUnit.step a b) CpUnit.OutputFits (CpUnit.start link net random f env env') calls ↔
      Guarded (CpUnit.step a b) (CpUnit.Fit a b) (CpUnit.start link net random f env env')
        calls := by
  refine always_iff_guarded CpUnit.OutputFits (fun _ _ => True) ⟨allFit_nil, allFit_nil⟩
    (fun _ h => h)
    (fun _ call h _ hfit => (CpUnit.step_fits_iff a b h call).mpr hfit)
    (fun _ call h _ hfit hout => hfit ((CpUnit.step_fits_iff a b h call).mp hout))
    (fun _ _ _ => trivial)

end

/-- A peer with an MRU of 1600 sends 1500 octets with a code that LCP does not know. -/
theorem code_reject_overflows :
    ¬ ∀ calls, Always (CpUnit.step LcpRest.bare IpcpRest.bare) CpUnit.OutputFits
      (CpUnit.start lcpInit ipcpInit (0, 0) (default, default) () ()) calls := by
  intro h
  have hall : ∀ calls inpacket, InputFits LcpRest.bare.recorded LcpRest.bare.AnswerFits
      (run (CpUnit.step LcpRest.bare IpcpRest.bare)
        (CpUnit.start lcpInit ipcpInit (0, 0) (default, default) () ()) calls).lcp inpacket := by
    intro calls inpacket
    have hbefore := h calls calls (List.prefix_refl _)
    have hafter := h (calls ++ [.lcp (.fsm (.input inpacket))]) _ (List.prefix_refl _)
    rw [run_concat] at hafter
    exact (CpUnit.step_fits_iff _ _ hbefore _).mp hafter
  have hunknown := (hall [.lcp (.fsm .lowerup), .lcp (.fsm .open),
      .lcp (.fsm (.input [1, 1, 0, 8, 1, 4, 6, 64])),
      .lcp (.fsm (.input [2, 1, 0, 18, 1, 4, 5, 220, 5, 6, 0, 0, 0, 7, 7, 2, 8, 2]))]
    ([99, 1, 5, 220] ++ List.replicate 1496 0) ⟨99, 1, List.replicate 1496 0⟩
    (by decide +kernel) (by decide +kernel) (by decide +kernel)).2.2 (by decide)
  rcases hunknown with hlong | hmru
  · revert hlong
    decide +kernel
  · revert hmru
    decide +kernel

end VxWorks.Ppp
