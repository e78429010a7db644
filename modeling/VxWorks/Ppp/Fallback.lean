import VxWorks.Ppp.AckExact
import VxWorks.Ppp.Layers

/-!
# The fallback to the old forms

`ipcp_addci` may change its mind about an option that is not negotiated: it goes
back to asking for it, in the old form or once more in the new one. But the room
it writes into was computed before, by `ipcp_cilen`, from the options as they
were. An option that was not in them has no room there, `ipcp_addci` then gives
it up again, and the request goes out without it.

So nothing comes of a fallback, ever, and a request has all that `ipcp_addci`
set out to ask for exactly when there was none to make. `FallbackDue` is when
there is one.
-/

namespace VxWorks.Ppp

open VxWorks.Lib

namespace Ipcp

/-- Our address is to be asked for in the old form. -/
def AddrDue (o : Ipcp) : Prop :=
  o.want.negAddr = true ∧ o.got.negAddr = false ∧ o.got.oldAddrs = false

/-- Compression is to be asked for again: in the new form as long as nothing has come from
the peer, and later in the old form if the peer has used it. -/
def VjDue (o : Ipcp) : Prop :=
  o.want.negVj = true ∧ o.got.negVj = false ∧ o.got.oldVj = false ∧
    (o.cisReceived = 0 ∨ o.his.negVj = true ∧ o.his.oldVj = true)

def FallbackDue (o : Ipcp) : Prop := o.AddrDue ∨ o.VjDue

variable {o : Ipcp}

theorem AddrDue.neg (h : o.AddrDue) : (ipcpFallback o).negAddr = true := by
  obtain ⟨hwant, hneg, hold⟩ := h
  rw [ipcpFallback]
  simp only [hwant, hneg, hold, Bool.not_false, Bool.and_self, if_true]
  split_ifs <;> rfl

theorem VjDue.neg (h : o.VjDue) : (ipcpFallback o).negVj = true := by
  obtain ⟨hwant, hneg, hold, hpeer⟩ := h
  have hgo : ∀ go : IpcpOptions, go.negVj = false → go.oldVj = false →
      (o.want.negVj && !go.negVj && !go.oldVj) = true := by
    intro go hn ho
    rw [hwant, hn, ho]
    rfl
  unfold ipcpFallback
  dsimp only
  rw [if_pos (hgo _ (by split_ifs <;> exact hneg) (by split_ifs <;> exact hold))]
  rcases hpeer with hnone | ⟨hvj, hform⟩
  · rw [if_pos hnone]
  · by_cases hnone : o.cisReceived = 0
    · rw [if_pos hnone]
    · rw [if_neg hnone, hvj, hform]
      rfl

/-- Where none is due there is no change. -/
theorem fallback_of_not_due (h : ¬ o.FallbackDue) : ipcpFallback o = o.got := by
  obtain ⟨haddr, hvj⟩ := not_or.mp h
  have hno : (o.want.negAddr && !o.got.negAddr && !o.got.oldAddrs) = false := by
    by_contra hyes
    refine haddr ?_
    simpa [AddrDue, and_assoc] using hyes
  rw [ipcpFallback]
  simp only [hno, Bool.false_eq_true, if_false]
  split_ifs with hwant hnone hform
  · refine absurd ⟨?_, ?_, ?_, .inl hnone⟩ hvj
    all_goals simp only [Bool.and_eq_true, Bool.not_eq_true'] at hwant
    · exact hwant.1.1
    · exact hwant.1.2
    · exact hwant.2
  · refine absurd ⟨?_, ?_, ?_, .inr (by simpa using hform)⟩ hvj
    all_goals simp only [Bool.and_eq_true, Bool.not_eq_true'] at hwant
    · exact hwant.1.1
    · exact hwant.1.2
    · exact hwant.2
  · rfl
  · rfl

theorem addr_le :
    (if o.got.negAddr then addrOctets o.got else []).length ≤
      (if (ipcpFallback o).negAddr then addrOctets (ipcpFallback o) else []).length := by
  cases hneg : o.got.negAddr with
  | false => exact Nat.zero_le _
  | true =>
      obtain ⟨hkept, hsame⟩ := (ipcpFallback_addr o).1 hneg
      rw [hkept, hsame]

theorem vj_le :
    (if o.got.negVj then vjOctets o.got else []).length ≤
      (if (ipcpFallback o).negVj then vjOctets (ipcpFallback o) else []).length := by
  cases hneg : o.got.negVj with
  | false => exact Nat.zero_le _
  | true =>
      obtain ⟨hkept, hsame⟩ := ipcpFallback_vj o hneg
      rw [hkept, hsame]

/-- An option that the fallback adds takes room, and the others take no less than before. -/
theorem length_lt_of_due (h : o.FallbackDue) :
    (ownOctets o.got).length < (ownOctets (ipcpFallback o)).length := by
  unfold ownOctets
  rw [List.length_append, List.length_append]
  rcases h with h | h
  · have hlt : (if o.got.negAddr then addrOctets o.got else []).length <
        (if (ipcpFallback o).negAddr then addrOctets (ipcpFallback o) else []).length := by
      rw [h.2.1, h.neg, if_neg Bool.false_ne_true, if_pos rfl, length_addrOctets]
      split_ifs <;> decide
    exact Nat.add_lt_add_of_lt_of_le hlt vj_le
  · have hlt : (if o.got.negVj then vjOctets o.got else []).length <
        (if (ipcpFallback o).negVj then vjOctets (ipcpFallback o) else []).length := by
      rw [h.2.1, h.neg, if_neg Bool.false_ne_true, if_pos rfl, length_vjOctets]
      split_ifs <;> decide
    exact Nat.add_lt_add_of_le_of_lt addr_le hlt

/-- With the room that `ipcp_cilen` asked for, which it gets unless the peer's MRU is too
small, the request has every option that `ipcp_addci` decided to send. -/
def Carried (o : Ipcp) (room : Int) : Prop :=
  room = ipcpCilen o.got → (ipcpAddci o room).2 = ownOctets (ipcpFallback o)

theorem carried_iff (o : Ipcp) (room : Int) :
    o.Carried room ↔ (room = ipcpCilen o.got → ¬ o.FallbackDue) := by
  rw [Carried]
  refine forall_congr' ?_
  intro hroom
  have hsent : (ipcpAddci o room).2 = ownOctets o.got := by
    have heq := @ipcpAddci_eq o (ipcpCilen o.got) (le_max_right _ _)
    rw [hroom, ← min_self (ipcpCilen o.got), heq]
  rw [hsent]
  constructor
  · intro hcarried hdue
    have hlt := length_lt_of_due hdue
    rw [hcarried] at hlt
    exact lt_irrefl _ hlt
  · intro hnone
    rw [fallback_of_not_due hnone]

end Ipcp

/-- In every run of IPCP, all the requests so far have every option that `ipcp_addci` decided
to send exactly if it has never found a fallback to make. -/
theorem fallback_carried_iff {σ : Type} (a : IpcpRest σ) (random : UInt8) (f : Fsm) (net : Ipcp)
    (peerMru : Int) (env : σ) (calls : List FsmCall) :
    Always (a.step a.recorded) (fun w => ∀ c ∈ w.env.asked, c.1.Carried c.2)
        (World.start random f ⟨net, peerMru, [], env⟩) calls ↔
      Always (a.step a.recorded)
        (fun w => ∀ c ∈ w.env.asked, c.2 = ipcpCilen c.1.got → ¬ c.1.FallbackDue)
        (World.start random f ⟨net, peerMru, [], env⟩) calls := by
  rw [Always]
  refine forall_congr' fun pre => imp_congr_right ?_
  intro _
  refine forall_congr' fun c => imp_congr_right ?_
  intro _
  exact c.1.carried_iff c.2

/-- After a Reject of compression it is to be asked for once more, and is not. -/
theorem fallback_dropped :
    ¬ ∀ calls, Always (IpcpRest.bare.step IpcpRest.bare.recorded)
      (fun w => ∀ c ∈ w.env.asked, c.1.Carried c.2)
      (World.start 0 default ⟨ipcpInit, mtu, [], ()⟩) calls := by
  intro h
  have hcarried := h [.open, .lowerup, .input [4, 1, 0, 10, 2, 6, 0, 45, 15, 1]] _
    (List.prefix_refl _)
  obtain ⟨o, ho⟩ : ∃ o, o = { ipcpResetci ipcpInit with
    got := { (ipcpResetci ipcpInit).got with negVj := false } } := ⟨_, rfl⟩
  have hdue : o.FallbackDue := by
    rw [ho]
    exact .inr ⟨rfl, rfl, rfl, .inl rfl⟩
  refine (o.carried_iff _).mp (hcarried (o, ipcpCilen o.got) ?_) rfl hdue
  rw [ho]
  decide +kernel

end VxWorks.Ppp
