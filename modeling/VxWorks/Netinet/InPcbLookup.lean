import VxWorks.Netinet.InPcbTable

/-!
# The two ways to look a block up

`in_pcblookup` walks the list and takes the block with the fewest wildcards.
`in_pcblookuphash` looks in two chains: the one of the connection, where only an
exact match counts, and the one of the local port, where it has a rule of its
own. For a packet both find the best match, as long as every block is one of
the kinds the second rule knows: connected at both ends, or without a foreign
end altogether (`TwoEnds`).

The order of a chain matters only between equally good blocks. Nothing else the
calls do depends on it, so that a search that moved a block to the head of its
chain leaves the answers of all later searches alone (`SameBlocks`).
-/

namespace VxWorks.Netinet

open VxWorks.Lib

/-- A packet: none of the four is a wildcard. -/
structure FourTuple.Full (q : FourTuple) : Prop where
  faddr : q.faddr ≠ inaddrAny
  fport : q.fport ≠ 0
  laddr : q.laddr ≠ inaddrAny
  lport : q.lport ≠ 0

/-- The wildcards block `i` matches the packet with. -/
def score (s : InpcbInfo) (q : FourTuple) (i : Nat) : Option Nat :=
  wildcard (s.pcb i) q.faddr q.fport q.laddr q.lport

def listed (s : InpcbInfo) (q : FourTuple) : Option Nat :=
  inPcblookup s q.faddr q.fport q.laddr q.lport true

def hashed (s : InpcbInfo) (q : FourTuple) : Option Nat :=
  (inPcblookuphash s q.faddr q.fport q.laddr q.lport true).1

/-- A live block that matches with the fewest wildcards. -/
def Best (s : InpcbInfo) (q : FourTuple) (i : Nat) : Prop :=
  s.live i ∧ ∃ w, score s q i = some w ∧ ∀ j, s.live j → ∀ w', score s q j = some w' → w ≤ w'

/-- What a search is to answer. -/
def Finds (s : InpcbInfo) (q : FourTuple) : Option Nat → Prop
  | none => ∀ j, s.live j → score s q j = none
  | some i => Best s q i

/-- A block that has a foreign address has a local one too, and one that has
none has no foreign port. -/
structure TwoEnds (inp : Inpcb) : Prop where
  fport : inp.faddr = inaddrAny → inp.fport = 0
  laddr : inp.faddr ≠ inaddrAny → inp.laddr ≠ inaddrAny

section

variable {s : InpcbInfo} {q : FourTuple}

theorem listed_finds (hc : Consistent s) (q : FourTuple) : Finds s q (listed s q) := by
  rw [listed, inPcblookup]
  rcases inPcblookupLoop_best (score s q) true s.list none 3 with
    ⟨hr, hl⟩ | ⟨k, hk, hr, w, hw, -, -, hl⟩
  · show Finds s q (inPcblookupLoop (score s q) true s.list none 3)
    rw [hr]
    intro j hj
    cases hw : score s q j with
    | none => rfl
    | some w =>
        have := hl j ((hc.mem j).mpr hj) w hw (.inr rfl)
        have := wildcard_le hw
        omega
  · show Finds s q (inPcblookupLoop (score s q) true s.list none 3)
    rw [hr]
    exact ⟨(hc.mem k).mp hk, w, hw, fun j hj w' hw' => hl j ((hc.mem j).mpr hj) w' hw' (.inr rfl)⟩

/-- The ways a packet can match a block, each with its number of wildcards. -/
inductive Match (inp : Inpcb) (q : FourTuple) : Option Nat → Prop
  | exact (h : fourTuple inp = q) : Match inp q (some 0)
  | here (h : unconnected inp q.lport) (hl : inp.laddr = q.laddr) : Match inp q (some 1)
  | any (h : unconnected inp q.lport) (hl : inp.laddr = inaddrAny) : Match inp q (some 2)
  | no (h : fourTuple inp ≠ q)
      (hun : unconnected inp q.lport → inp.laddr ≠ q.laddr ∧ inp.laddr ≠ inaddrAny) :
      Match inp q none

theorem wildcard_match {inp : Inpcb} (hq : q.Full) (h2 : TwoEnds inp) :
    Match inp q (wildcard inp q.faddr q.fport q.laddr q.lport) := by
  rw [wildcard]
  split
  · next hport =>
      refine .no (fun h => hport ?_) fun h => absurd h.2.2 hport
      rw [← h]
      rfl
  next hport =>
  have hport : inp.lport = q.lport := by simpa using hport
  unfold foreignWild
  by_cases hf : inp.faddr = inaddrAny
  · -- without a foreign end it is the local address that decides
    have hun : unconnected inp q.lport := ⟨hf, h2.fport hf, hport⟩
    rw [if_neg (by simpa using hf), if_pos hq.faddr]
    rw [hereWild]
    by_cases hl : inp.laddr = inaddrAny
    · rw [if_neg (by simpa using hl), if_pos hq.laddr]
      exact .any hun hl
    rw [if_pos hl, if_neg hq.laddr]
    split
    · next hne =>
        refine .no (fun h => hq.faddr ?_) fun _ => ⟨hne, hl⟩
        rw [← h]
        exact hf
    · next heq => exact .here hun (by simpa using heq)
  · have hconn : ¬ unconnected inp q.lport := fun h => hf h.1
    rw [if_pos hf, if_neg hq.faddr]
    split
    · next hne =>
        refine .no ?_ fun h => absurd h hconn
        intro h
        rw [← h] at hne
        exact absurd hne (by simp [fourTuple])
    next heq =>
    obtain ⟨hfa, hfp⟩ : inp.faddr = q.faddr ∧ inp.fport = q.fport := by simpa using heq
    rw [hereWild]
    rw [if_pos (h2.laddr hf), if_neg hq.laddr]
    split
    · next hne =>
        refine .no (fun h => hne ?_) fun h => absurd h hconn
        rw [← h]
        rfl
    · next hla =>
        refine .exact ?_
        rw [fourTuple]
        rw [hfa, hfp, hport, show inp.laddr = q.laddr by simpa using hla]

theorem unconnected_ne {inp : Inpcb} (hq : q.Full) (h : unconnected inp q.lport) :
    fourTuple inp ≠ q := by
  intro heq
  refine hq.faddr ?_
  rw [← heq]
  exact h.1

theorem Match.eq_zero {inp : Inpcb} {w : Option Nat} (h : Match inp q w) (hq : q.Full)
    (heq : fourTuple inp = q) : w = some 0 := by
  cases h with
  | exact => rfl
  | here hun | any hun => exact absurd heq (unconnected_ne hq hun)
  | no hne => exact absurd heq hne

theorem Match.eq_one {inp : Inpcb} {w : Option Nat} (h : Match inp q w) (hq : q.Full)
    (hun : unconnected inp q.lport) (hl : inp.laddr = q.laddr) : w = some 1 := by
  cases h with
  | exact heq => exact absurd heq (unconnected_ne hq hun)
  | here => rfl
  | any _ hany => exact absurd (hl.symm.trans hany) hq.laddr
  | no _ hno => exact absurd hl (hno hun).1

theorem Match.eq_two {inp : Inpcb} {w : Option Nat} (h : Match inp q w) (hq : q.Full)
    (hun : unconnected inp q.lport) (hany : inp.laddr = inaddrAny) : w = some 2 := by
  cases h with
  | exact heq => exact absurd heq (unconnected_ne hq hun)
  | here _ hl => exact absurd (hl.symm.trans hany) hq.laddr
  | any => rfl
  | no _ hno => exact absurd hany (hno hun).2

theorem Match.pos {inp : Inpcb} {w : Nat} (h : Match inp q (some w)) (hne : fourTuple inp ≠ q) :
    1 ≤ w := by
  cases h with
  | exact heq => exact absurd heq hne
  | here | any => omega

theorem Match.two_le {inp : Inpcb} {w : Nat} (h : Match inp q (some w)) (hne : fourTuple inp ≠ q)
    (hl : unconnected inp q.lport → inp.laddr ≠ q.laddr) : 2 ≤ w := by
  cases h with
  | exact heq => exact absurd heq hne
  | here hun heq => exact absurd heq (hl hun)
  | any => omega

theorem Match.eq_none {inp : Inpcb} {w : Option Nat} (h : Match inp q w) (hne : fourTuple inp ≠ q)
    (hl : unconnected inp q.lport → inp.laddr ≠ q.laddr)
    (hany : unconnected inp q.lport → inp.laddr ≠ inaddrAny) : w = none := by
  cases h with
  | exact heq => exact absurd heq hne
  | here hun heq => exact absurd heq (hl hun)
  | any hun heq => exact absurd heq (hany hun)
  | no => rfl

theorem exactMatch_iff {inp : Inpcb} :
    exactMatch inp q.faddr q.fport q.laddr q.lport = true ↔ fourTuple inp = q := by
  cases q
  simp only [exactMatch, fourTuple, decide_eq_true_eq, FourTuple.mk.injEq]
  tauto

theorem hashed_finds (hc : Consistent s) (h2 : ∀ i, s.live i → TwoEnds (s.pcb i)) (hq : q.Full) :
    Finds s q (hashed s q) := by
  have hmatch : ∀ i, s.live i → Match (s.pcb i) q (score s q i) :=
    fun i hi => wildcard_match hq (h2 i hi)
  -- where the two chains are, all there is to find is in them
  have hexact : ∀ i, s.live i → fourTuple (s.pcb i) = q →
      i ∈ s.hash (inpPcbhash q.faddr q.lport q.fport s.hashmask) := by
    intro i hi heq
    refine (hc.filed.mem _ i).mpr ⟨hi, ?_⟩
    rw [← heq]
    rfl
  have hwild : ∀ i, s.live i → unconnected (s.pcb i) q.lport →
      i ∈ s.hash (inpPcbhash inaddrAny q.lport 0 s.hashmask) := by
    intro i hi ⟨hf, hp, hl⟩
    refine (hc.filed.mem _ i).mpr ⟨hi, ?_⟩
    rw [InpcbInfo.chainOf]
    rw [hf, hp, hl]
  have hlive : ∀ {b i}, i ∈ s.hash b → s.live i := fun h => ((hc.filed.mem _ _).mp h).1
  unfold hashed inPcblookuphash
  dsimp only
  split
  · next i hi =>
      have hex := List.find?_some hi
      have heq : fourTuple (s.pcb i) = q := exactMatch_iff.mp hex
      have hi := hlive (List.mem_of_find?_eq_some hi)
      exact ⟨hi, 0, (hmatch i hi).eq_zero hq heq, fun _ _ _ _ => Nat.zero_le _⟩
  next hnone =>
  have hne : ∀ i, s.live i → fourTuple (s.pcb i) ≠ q := fun i hi heq =>
    List.find?_eq_none.mp hnone i (hexact i hi heq) (exactMatch_iff.mpr heq)
  rw [if_pos rfl]
  rcases localWildLoop_spec s.pcb q.laddr q.lport
      (s.hash (inpPcbhash inaddrAny q.lport 0 s.hashmask)) none with
    ⟨k, hk, hr, hun, hl⟩ | ⟨hl, ⟨k, hk, hr, hun, hany⟩ | ⟨hr, hany⟩⟩
  · rw [hr]
    refine ⟨hlive hk, 1, (hmatch k (hlive hk)).eq_one hq hun hl, ?_⟩
    intro j hj w' hw'
    exact (hw' ▸ hmatch j hj).pos (hne j hj)
  · rw [hr]
    refine ⟨hlive hk, 2, (hmatch k (hlive hk)).eq_two hq hun hany, ?_⟩
    intro j hj w' hw'
    exact (hw' ▸ hmatch j hj).two_le (hne j hj) fun hun => hl j (hwild j hj hun) hun
  · rw [hr]
    intro j hj
    exact (hmatch j hj).eq_none (hne j hj) (fun hun => hl j (hwild j hj hun) hun)
      fun hun => hany j (hwild j hj hun) hun

/-- Two answers to the same question are both right, or both none. -/
theorem Finds.agree {r r' : Option Nat} (h : Finds s q r) (h' : Finds s q r') :
    (r.isSome ↔ r'.isSome) ∧
      ∀ i j, r = some i → r' = some j → ∃ w, score s q i = some w ∧ score s q j = some w := by
  cases r with
  | none =>
      cases r' with
      | none => exact ⟨Iff.rfl, fun i j hi => absurd hi (by simp)⟩
      | some j =>
          obtain ⟨hj, w, hw, -⟩ := h'
          exact absurd (h j hj) (by simp [hw])
  | some i =>
      obtain ⟨hi, w, hw, hmin⟩ := h
      cases r' with
      | none => exact absurd (h' i hi) (by simp [hw])
      | some j =>
          refine ⟨by simp, ?_⟩
          intro a b ha hb
          obtain ⟨rfl, rfl⟩ : i = a ∧ j = b := by simpa using And.intro ha hb
          obtain ⟨hj, w', hw', hmin'⟩ := h'
          obtain rfl : w = w' := Nat.le_antisymm (hmin j hj w' hw') (hmin' i hi w hw)
          exact ⟨w, hw, hw'⟩

/-- With one best match there is one answer. -/
theorem Finds.eq_some {r : Option Nat} {i : Nat} (h : Finds s q r) (hi : Best s q i)
    (huniq : ∀ j, Best s q j → j = i) : r = some i := by
  cases r with
  | none =>
      obtain ⟨hlive, w, hw, -⟩ := hi
      exact absurd (h i hlive) (by simp [hw])
  | some j => rw [huniq j h]

end

/-! ## The order in the chains does not matter -/

/-- Everything is the same but the order in the hash chains. -/
structure SameBlocks (s t : InpcbInfo) : Prop where
  pcb : s.pcb = t.pcb
  live : s.live = t.live
  list : s.list = t.list
  hashmask : s.hashmask = t.hashmask
  lastport : s.lastport = t.lastport

section

variable {s t : InpcbInfo} {i : Nat}

theorem SameBlocks.refl (s : InpcbInfo) : SameBlocks s s := ⟨rfl, rfl, rfl, rfl, rfl⟩

theorem SameBlocks.symm (h : SameBlocks s t) : SameBlocks t s :=
  ⟨h.pcb.symm, h.live.symm, h.list.symm, h.hashmask.symm, h.lastport.symm⟩

theorem SameBlocks.trans {u : InpcbInfo} (h : SameBlocks s t) (h' : SameBlocks t u) :
    SameBlocks s u :=
  ⟨h.pcb.trans h'.pcb, h.live.trans h'.live, h.list.trans h'.list, h.hashmask.trans h'.hashmask,
    h.lastport.trans h'.lastport⟩

theorem SameBlocks.set (h : SameBlocks s t) (i : Nat) (f : Inpcb → Inpcb) :
    SameBlocks (s.set i f) (t.set i f) := by
  refine ⟨?_, h.live, h.list, h.hashmask, h.lastport⟩
  unfold InpcbInfo.set
  rw [h.pcb]

theorem SameBlocks.rehash (h : SameBlocks s t) (i : Nat) :
    SameBlocks (inPcbrehash s i) (inPcbrehash t i) :=
  ⟨h.pcb, h.live, h.list, h.hashmask, h.lastport⟩

theorem SameBlocks.inPcblookup (h : SameBlocks s t) : inPcblookup s = inPcblookup t := by
  unfold Netinet.inPcblookup
  rw [h.pcb, h.list]

theorem SameBlocks.lookuphash (hc : Consistent s) (faddr : UInt32) (fport : UInt16)
    (laddr : UInt32) (lport : UInt16) (wild : Bool) :
    SameBlocks (inPcblookuphash s faddr fport laddr lport wild).2 s := by
  obtain ⟨hash, heq⟩ := (inPcblookuphash_table hc faddr fport laddr lport wild).2
  rw [heq]
  exact ⟨rfl, rfl, rfl, rfl, rfl⟩

theorem SameBlocks.best (h : SameBlocks s t) {q : FourTuple} : Best s q i ↔ Best t q i := by
  unfold Best score
  rw [h.pcb, h.live]

theorem bindEphemeral_same (h : SameBlocks s t) (i : Nat) (wild : Bool) :
    Option.Rel (fun r r' => SameBlocks r.2 r'.2) (bindEphemeral s i wild)
      (bindEphemeral t i wild) := by
  unfold bindEphemeral
  rw [h.inPcblookup, h.pcb, h.lastport]
  cases pickPort (fun p => (Netinet.inPcblookup t inaddrAny 0 (t.pcb i).laddr p wild).isSome)
      portRound t.lastport with
  | none => exact .none
  | some p =>
      have hport : SameBlocks { s with pcb := t.pcb, lastport := p } { t with lastport := p } :=
        ⟨rfl, h.live, h.list, h.hashmask, rfl⟩
      exact .some ((hport.set i _).rehash i)

theorem inPcbbind_same (h : SameBlocks s t) (net : IfNet) (i : Nat) (nam : Option SockaddrIn) :
    Option.Rel (fun r r' => SameBlocks r.2 r'.2) (inPcbbind net s i nam)
      (inPcbbind net t i nam) := by
  unfold inPcbbind
  dsimp only
  rw [h.inPcblookup, h.pcb]
  split
  · exact .some h
  split
  · exact .some h
  cases nam with
  | none => exact bindEphemeral_same h i _
  | some sin =>
      dsimp only
      split
      · exact .some h
      split
      · exact .some h
      split
      · exact bindEphemeral_same (h.set i _) i _
      split
      · exact .some h
      · exact .some ((h.set i _).rehash i)

theorem connectLocal_same (h : SameBlocks s t) (net : IfNet) (i : Nat) (laddr : UInt32) :
    Option.Rel SameBlocks (connectLocal net s i laddr) (connectLocal net t i laddr) := by
  unfold connectLocal
  dsimp only
  rw [h.pcb]
  split
  · split
    · have hbind := inPcbbind_same h net i none
      revert hbind
      cases inPcbbind net s i none <;> cases inPcbbind net t i none <;> intro hbind
      · exact .none
      · exact absurd hbind (by simp)
      · exact absurd hbind (by simp)
      · cases hbind with
        | some hr => exact .some (hr.set i _)
    · exact .some (h.set i _)
  · exact .some h

/-- Whether there is an exact match is a matter of what is in the chain. -/
theorem lookuphash_exact_same (h : SameBlocks s t) (hs : Consistent s) (ht : Consistent t)
    (faddr laddr : UInt32) (fport lport : UInt16) :
    (inPcblookuphash s faddr fport laddr lport false).1 = none →
      (inPcblookuphash t faddr fport laddr lport false).1 = none := by
  intro hnone
  unfold inPcblookuphash
  dsimp only
  split
  · next i hi =>
      have hmem := List.mem_of_find?_eq_some hi
      have hlive : s.live i := by
        rw [h.live]
        exact ((ht.filed.mem _ i).mp hmem).1
      have hex := List.find?_some hi
      simp only [exactMatch, decide_eq_true_eq] at hex
      rw [← h.pcb] at hex
      exact absurd hex (inPcblookuphash_exact hs hnone hlive)
  · rfl

theorem inPcbconnect_same (h : SameBlocks s t) (hs : Consistent s) (ht : Consistent t) (net : IfNet)
    (i : Nat) (sin : SockaddrIn) :
    Option.Rel (fun r r' => SameBlocks r.2 r'.2) (inPcbconnect net s i sin)
      (inPcbconnect net t i sin) := by
  unfold inPcbconnect
  rw [h.pcb]
  cases inPcbladdr net (t.pcb i) sin with
  | error e => exact .some h
  | ok r =>
      obtain ⟨faddr, laddr⟩ := r
      dsimp only
      have hs' := SameBlocks.lookuphash hs faddr sin.port laddr (t.pcb i).lport false
      have ht' := SameBlocks.lookuphash ht faddr sin.port laddr (t.pcb i).lport false
      have hst := lookuphash_exact_same h hs ht faddr laddr sin.port (t.pcb i).lport
      have hts := lookuphash_exact_same h.symm ht hs faddr laddr sin.port (t.pcb i).lport
      revert hs' ht' hst hts
      generalize inPcblookuphash s faddr sin.port laddr (t.pcb i).lport false = rs
      generalize inPcblookuphash t faddr sin.port laddr (t.pcb i).lport false = rt
      intro hs' ht' hst hts
      have hboth : SameBlocks rs.2 rt.2 := hs'.trans (h.trans ht'.symm)
      obtain ⟨_ | a, s'⟩ := rs <;> obtain ⟨_ | b, t'⟩ := rt
      · have hloc := connectLocal_same hboth net i laddr
        revert hloc
        dsimp only
        cases connectLocal net s' i laddr <;> cases connectLocal net t' i laddr <;> intro hloc
        · exact .none
        · exact absurd hloc (by simp)
        · exact absurd hloc (by simp)
        · cases hloc with
          | some hr => exact .some ((hr.set i _).rehash i)
      · exact absurd (hst rfl) (by simp)
      · exact absurd (hts rfl) (by simp)
      · exact .some hboth

theorem SameBlocks.detach (h : SameBlocks s t) (i : Nat) :
    SameBlocks (inPcbdetach s i) (inPcbdetach t i) := by
  refine ⟨h.pcb, ?_, ?_, h.hashmask, h.lastport⟩
  · unfold inPcbdetach
    rw [h.live]
  · unfold inPcbdetach
    rw [h.list]

theorem pcbCall_same (h : SameBlocks s t) (hs : Consistent s) (ht : Consistent t) (e : PcbCall) :
    Option.Rel SameBlocks (pcbCall s e) (pcbCall t e) := by
  have hmap : ∀ {o o' : Option (Option Errno × InpcbInfo)},
      Option.Rel (fun r r' => SameBlocks r.2 r'.2) o o' →
      Option.Rel SameBlocks (o.map (·.2)) (o'.map (·.2)) := by
    intro o o' hrel
    cases hrel with
    | none => exact .none
    | some hr => exact .some hr
  cases e with
  | alloc so mem =>
      simp only [pcbCall, h.live]
      split
      · exact .some h
      · cases mem with
        | none => exact .some h
        | some i =>
            refine .some ⟨?_, ?_, ?_, h.hashmask, h.lastport⟩
            · simp only [inPcballoc, h.pcb]
            · simp only [inPcballoc, h.live]
            · simp only [inPcballoc, h.list]
  | bind net i nam =>
      simp only [pcbCall, h.live]
      split
      · exact hmap (inPcbbind_same h net i nam)
      · exact .some h
  | connect net i sin =>
      simp only [pcbCall, h.live]
      split
      · exact hmap (inPcbconnect_same h hs ht net i sin)
      · exact .some h
  | disconnect i =>
      simp only [pcbCall, h.live]
      refine .some ?_
      split
      · have hset := (h.set i ({ · with faddr := inaddrAny, fport := 0 })).rehash i
        unfold inPcbdisconnect
        dsimp only
        rw [hset.pcb]
        split
        · exact hset.detach i
        · exact hset
      · exact h
  | detach i =>
      simp only [pcbCall, h.live]
      refine .some ?_
      split
      · exact h.detach i
      · exact h
  | sockopt i so =>
      simp only [pcbCall, h.live]
      refine .some ?_
      split
      · exact h.set i _
      · exact h
  | lookup q wild => exact .some h
  | lookuphash q wild =>
      refine .some ((SameBlocks.lookuphash hs ..).trans (h.trans (SameBlocks.symm ?_)))
      exact .lookuphash ht ..

/-- So calls made on both go on the same. -/
theorem run_same {o o' : Option InpcbInfo} (h : Option.Rel SameBlocks o o')
    (ho : ∀ s ∈ o, Consistent s) (ho' : ∀ s ∈ o', Consistent s) (es : List PcbCall) :
    Option.Rel SameBlocks (run pcbStep o es) (run pcbStep o' es) := by
  have hcons : ∀ {o : Option InpcbInfo} {e : PcbCall}, (∀ s ∈ o, Consistent s) →
      ∀ s ∈ pcbStep o e, Consistent s := by
    intro o e ho s' hs'
    obtain ⟨s, hs, hcall⟩ := pcbStep_some hs'
    exact pcbCall_consistent hcall (ho s hs)
  induction es generalizing o o' with
  | nil => exact h
  | cons e es ih =>
      refine ih ?_ (hcons ho) (hcons ho')
      cases h with
      | none => exact .none
      | some h => exact pcbCall_same h (ho _ rfl) (ho' _ rfl) e

end

/-! ## Every run -/

/-- A connection is made between two addresses, neither of them the wildcard. -/
def BothEnds (s : InpcbInfo) : PcbCall → Prop
  | .connect net i sin =>
      ∀ faddr laddr, inPcbladdr net (s.pcb i) sin = .ok (faddr, laddr) →
        faddr ≠ inaddrAny ∧ laddr ≠ inaddrAny
  | _ => True

section

variable {s s' : InpcbInfo} {e : PcbCall}

theorem twoEnds_frame {i : Nat} (h2 : ∀ j, s.live j → TwoEnds (s.pcb j))
    (hpcb : ∀ j, j ≠ i → s'.pcb j = s.pcb j) (hlive : ∀ j, j ≠ i → s'.live j → s.live j)
    (hi : TwoEnds (s'.pcb i)) : ∀ j, s'.live j → TwoEnds (s'.pcb j) := by
  intro j hj
  rcases eq_or_ne j i with rfl | hji
  · exact hi
  · rw [hpcb j hji]
    exact h2 j (hlive j hji hj)

theorem pcbCall_twoEnds (h : pcbCall s e = some s') (hc : Consistent s)
    (h2 : ∀ j, s.live j → TwoEnds (s.pcb j)) (hg : BothEnds s e) :
    ∀ j, s'.live j → TwoEnds (s'.pcb j) := by
  have hframe : ∀ {t : InpcbInfo} {i : Nat}, Frame s t i → TwoEnds (t.pcb i) →
      ∀ j, t.live j → TwoEnds (t.pcb j) := by
    intro t i hf hi
    exact twoEnds_frame h2 hf.pcb (fun j _ hj => by rwa [hf.live] at hj) hi
  have hdetach : ∀ {t : InpcbInfo} (i : Nat), (∀ j, t.live j → TwoEnds (t.pcb j)) →
      ∀ j, (inPcbdetach t i).live j → TwoEnds ((inPcbdetach t i).pcb j) := by
    intro t i ht j hj
    rcases eq_or_ne j i with rfl | hji
    · exact absurd hj (by simp [inPcbdetach])
    · exact ht j (by simpa [inPcbdetach, hji] using hj)
  cases e with
  | alloc so mem =>
      rw [pcbCall] at h
      split at h
      · cases h; exact h2
      cases h
      cases mem with
      | none => exact h2
      | some i =>
          refine twoEnds_frame (i := i) h2 ?_ ?_ ?_
          · intro j hj
            exact Function.update_of_ne hj ..
          · intro j hj hlive
            simpa [inPcballoc, hj] using hlive
          · constructor <;> simp [inPcballoc, inaddrAny]
  | bind net i nam =>
      rcases live_call h with rfl | ⟨hi, err, ht⟩
      · exact h2
      · obtain ⟨-, hf, hsame | ⟨-, haddr, p, -, hpcb⟩⟩ := inPcbbind_spec ht hc hi
        · exact hframe hf (by rw [hsame]; exact h2 i hi)
        · -- a block without a local address is not connected
          have hany : (s.pcb i).faddr = inaddrAny := by
            by_contra hne
            exact (h2 i hi).laddr hne haddr
          refine hframe hf ?_
          rw [hpcb]
          exact ⟨(h2 i hi).fport, fun hne => absurd hany hne⟩
  | connect net i sin =>
      rcases live_call h with rfl | ⟨hi, err, ht⟩
      · exact h2
      · obtain ⟨-, hf, hsame | ⟨faddr, laddr, p, haddr, hpcb, -⟩⟩ := inPcbconnect_spec ht hc hi
        · exact hframe hf (by rw [hsame]; exact h2 i hi)
        · obtain ⟨hfa, hla⟩ := hg faddr laddr haddr
          refine hframe hf ?_
          rw [hpcb]
          exact ⟨fun hany => absurd hany hfa, fun _ => hla⟩
  | disconnect i =>
      cases h
      split
      · have hset : ∀ j, _ → TwoEnds _ :=
          hframe (i := i) (frame_set (f := ({ · with faddr := inaddrAny, fport := 0 }))
            |>.trans frame_rehash) (by
              rw [rehash_pcb, set_pcb_self]
              exact ⟨fun _ => rfl, fun hne => absurd rfl hne⟩)
        unfold inPcbdisconnect
        dsimp only
        split
        · exact hdetach i hset
        · exact hset
      · exact h2
  | detach i =>
      cases h
      split
      · exact hdetach i h2
      · exact h2
  | sockopt i so =>
      cases h
      split
      · next hi =>
          refine hframe frame_set ?_
          rw [set_pcb_self]
          exact ⟨(h2 i hi).fport, (h2 i hi).laddr⟩
      · exact h2
  | lookup q wild =>
      cases h
      exact h2
  | lookuphash q wild =>
      cases h
      have hsame := SameBlocks.lookuphash hc q.faddr q.fport q.laddr q.lport wild
      rw [hsame.pcb, hsame.live]
      exact h2

end

theorem pcb_twoEnds {mask : UInt32} {es : List PcbCall}
    (hg : Guarded pcbStep (fun o e => ∀ s ∈ o, BothEnds s e) (some (pcbInit mask)) es) :
    Always pcbStep (fun o => ∀ s ∈ o, Consistent s ∧ ∀ i, s.live i → TwoEnds (s.pcb i))
      (some (pcbInit mask)) es := by
  refine always_of_guarded _ ?_ ?_ hg
  · intro s hs
    obtain rfl : pcbInit mask = s := by simpa using hs
    exact ⟨Consistent.init mask, fun i hi => absurd hi (by simp [pcbInit])⟩
  · intro o e h hg s' hs'
    obtain ⟨s, hs, hcall⟩ := pcbStep_some hs'
    obtain ⟨hc, h2⟩ := h s hs
    exact ⟨pcbCall_consistent hcall hc, pcbCall_twoEnds hcall hc h2 (hg s hs)⟩

/-- Tables with the same blocks answer the same when there is one best match. -/
theorem SameBlocks.answer {s t : InpcbInfo} (h : SameBlocks s t) (hs : Consistent s)
    (ht : Consistent t) (h2 : ∀ i, s.live i → TwoEnds (s.pcb i)) {q : FourTuple} (hq : q.Full)
    {i : Nat} (hi : Best s q i) (huniq : ∀ j, Best s q j → j = i) (wild : Bool) :
    (inPcblookuphash s q.faddr q.fport q.laddr q.lport wild).1 =
      (inPcblookuphash t q.faddr q.fport q.laddr q.lport wild).1 := by
  have h2' : ∀ i, t.live i → TwoEnds (t.pcb i) := by
    rw [← h.pcb, ← h.live]
    exact h2
  cases wild with
  | true =>
      have hsi : hashed s q = some i := (hashed_finds hs h2 hq).eq_some hi huniq
      have hti : hashed t q = some i :=
        (hashed_finds ht h2' hq).eq_some (h.best.mp hi) fun j hj => huniq j (h.best.mpr hj)
      exact hsi.trans hti.symm
  | false =>
      -- a match that is exact is a best one, and so it is `i`
      have hone : ∀ {u : InpcbInfo} {k : Nat}, SameBlocks s u → Consistent u →
          (inPcblookuphash u q.faddr q.fport q.laddr q.lport false).1 = some k → k = i := by
        intro u k hsame hu hk
        have hfind : (u.hash (inpPcbhash q.faddr q.lport q.fport u.hashmask)).find?
            (fun i => exactMatch (u.pcb i) q.faddr q.fport q.laddr q.lport) = some k := by
          unfold inPcblookuphash at hk
          dsimp only at hk
          split at hk
          · next hfind => exact hfind.trans hk
          · exact absurd hk (by simp)
        have hlive : s.live k := by
          rw [hsame.live]
          exact ((hu.filed.mem _ k).mp (List.mem_of_find?_eq_some hfind)).1
        have hex := List.find?_some hfind
        have heq : fourTuple (s.pcb k) = q := by
          rw [hsame.pcb]
          exact exactMatch_iff.mp hex
        refine huniq k ⟨hlive, 0, ?_, fun _ _ _ _ => Nat.zero_le _⟩
        exact (wildcard_match hq (h2 k hlive)).eq_zero hq heq
      cases hks : (inPcblookuphash s q.faddr q.fport q.laddr q.lport false).1 with
      | none => exact (lookuphash_exact_same h hs ht _ _ _ _ hks).symm
      | some k =>
          cases hkt : (inPcblookuphash t q.faddr q.fport q.laddr q.lport false).1 with
          | none =>
              have hnone := lookuphash_exact_same h.symm ht hs _ _ _ _ hkt
              exact absurd (hks.symm.trans hnone) (by simp)
          | some k' => rw [hone (.refl s) hs hks, hone h ht hkt]

/-- In every run in which no connection is made to or from the wildcard address,
and at every time in it: for a packet the hash table has an answer exactly when
the list has one, and both answers match with the fewest wildcards there are.
Leaving out a search of the hash table, with the moving it does, changes no
later answer of either for a packet that has one best match. -/
theorem pcb_lookups_agree (mask : UInt32) (es : List PcbCall)
    (hg : Guarded pcbStep (fun o e => ∀ s ∈ o, BothEnds s e) (some (pcbInit mask)) es) :
    Always pcbStep
        (fun o => ∀ s ∈ o, ∀ q : FourTuple, q.Full →
          ((hashed s q).isSome ↔ (listed s q).isSome) ∧
            ∀ i j, hashed s q = some i → listed s q = some j →
              Best s q i ∧ Best s q j ∧ ∃ w, score s q i = some w ∧ score s q j = some w)
        (some (pcbInit mask)) es ∧
      ∀ pre q wild post, pre ++ PcbCall.lookuphash q wild :: post <+: es →
        Option.Rel
          (fun s t => ∀ q : FourTuple, q.Full → ∀ i, Best s q i → (∀ j, Best s q j → j = i) →
            ∀ wild,
              (inPcblookuphash s q.faddr q.fport q.laddr q.lport wild).1 =
                (inPcblookuphash t q.faddr q.fport q.laddr q.lport wild).1 ∧
              inPcblookup s q.faddr q.fport q.laddr q.lport wild =
                inPcblookup t q.faddr q.fport q.laddr q.lport wild)
          (run pcbStep (some (pcbInit mask)) (pre ++ PcbCall.lookuphash q wild :: post))
          (run pcbStep (some (pcbInit mask)) (pre ++ post)) := by
  have hall := pcb_twoEnds hg
  constructor
  · intro pre hpre s hs q hq
    obtain ⟨hc, h2⟩ := hall pre hpre s hs
    have hh := hashed_finds hc h2 hq
    have hl := listed_finds hc q
    refine ⟨(hh.agree hl).1, ?_⟩
    intro i j hi hj
    have hw := (hh.agree hl).2 i j hi hj
    rw [hi] at hh
    rw [hj] at hl
    exact ⟨hh, hl, hw⟩
  · intro pre q wild post hpre
    have hcons : ∀ fs, ∀ s ∈ run pcbStep (some (pcbInit mask)) fs, Consistent s :=
      fun fs => pcb_consistent mask fs fs (List.prefix_refl _)
    have hsame : Option.Rel SameBlocks
        (run pcbStep (some (pcbInit mask)) (pre ++ PcbCall.lookuphash q wild :: post))
        (run pcbStep (some (pcbInit mask)) (pre ++ post)) := by
      rw [run_append, run_append, run_cons]
      have hpre := hcons pre
      have hmoved := hcons (pre ++ [PcbCall.lookuphash q wild])
      rw [run_concat] at hmoved
      refine run_same ?_ hmoved hpre post
      revert hpre
      cases run pcbStep (some (pcbInit mask)) pre with
      | none => exact fun _ => .none
      | some s => exact fun hpre => .some (.lookuphash (hpre s rfl) ..)
    have hs := hall _ hpre
    have ht := hcons (pre ++ post)
    revert hsame hs ht
    generalize run pcbStep (some (pcbInit mask)) (pre ++ PcbCall.lookuphash q wild :: post) = o
    generalize run pcbStep (some (pcbInit mask)) (pre ++ post) = o'
    intro hsame hs ht
    cases hsame with
    | none => exact .none
    | @some s t h =>
        refine .some fun q hq i hi huniq wild => ⟨?_, ?_⟩
        · exact h.answer (hs s rfl).1 (ht t rfl) (hs s rfl).2 hq hi huniq wild
        · rw [h.inPcblookup]

/-- A server listens on port 80 and accepts a connection. -/
def server : List PcbCall :=
  [.alloc ⟨soAcceptconn, true, false⟩ (some 0), .bind oneIf 0 (some ⟨16, afInet, 80, 0⟩),
    .alloc ⟨soReuseaddr, true, false⟩ (some 1), .bind oneIf 1 (some ⟨16, afInet, 80, 0x0a000001⟩),
    .connect oneIf 1 ⟨16, afInet, 1025, 0x0a000002⟩]

theorem pcb_lookups_agree_server :
    Always pcbStep (fun o => ∀ s ∈ o, ∀ q : FourTuple, q.Full →
      ((hashed s q).isSome ↔ (listed s q).isSome)) (some (pcbInit 127)) server := by
  have hg : Guarded pcbStep (fun o e => ∀ s ∈ o, BothEnds s e) (some (pcbInit 127)) server := by
    refine guarded_cons (fun _ _ => trivial) (guarded_cons (fun _ _ => trivial)
      (guarded_cons (fun _ _ => trivial) (guarded_cons (fun _ _ => trivial)
        (guarded_cons ?_ guarded_nil))))
    intro s hs faddr laddr haddr
    have hall : (run pcbStep (some (pcbInit 127)) (server.take 4)).all
        (fun s => s.pcb 1 = ⟨0, 0, 0x0a000001, 80, soReuseaddr, true, false⟩) = true := by
      decide +kernel
    have hpcb : s.pcb 1 = ⟨0, 0, 0x0a000001, 80, soReuseaddr, true, false⟩ := by
      simpa using (Option.all_eq_true _ _).mp hall s hs
    have hok : inPcbladdr oneIf (s.pcb 1) ⟨16, afInet, 1025, 0x0a000002⟩ =
        .ok (0x0a000002, 0x0a000001) := by rw [hpcb]; rfl
    obtain ⟨rfl, rfl⟩ := Prod.mk.inj (Except.ok.inj (hok.symm.trans haddr))
    decide
  intro pre hpre s hs q hq
  exact ((pcb_lookups_agree 127 server hg).1 pre hpre s hs q hq).1

/-- A block is bound while there is an interface, and connected to the wildcard
address when there is none any more. -/
def deafened : List PcbCall :=
  [.alloc ⟨0, false, false⟩ (some 0), .bind oneIf 0 (some ⟨16, afInet, 80, 0x0a000001⟩),
    .connect { oneIf with inIfaddr := none } 0 ⟨16, afInet, 1025, 0⟩]

/-- The list still has it for a packet to that port, the hash table has not. -/
theorem pcb_lookups_differ : ¬ ∀ (mask : UInt32) (es : List PcbCall),
    Always pcbStep (fun o => ∀ s ∈ o, ∀ q : FourTuple, q.Full →
      ((hashed s q).isSome ↔ (listed s q).isSome)) (some (pcbInit mask)) es := by
  intro h
  have hend : (run pcbStep (some (pcbInit 127)) deafened).map
      (fun s => (hashed s ⟨0x0a000002, 1025, 0x0a000001, 80⟩,
        listed s ⟨0x0a000002, 1025, 0x0a000001, 80⟩)) = some (none, some 0) := by decide +kernel
  obtain ⟨s, hs, heq⟩ := Option.map_eq_some_iff.mp hend
  obtain ⟨hh, hl⟩ := Prod.mk.inj heq
  have hiff := h 127 deafened deafened (List.prefix_refl _) s hs ⟨0x0a000002, 1025, 0x0a000001, 80⟩
    ⟨by decide, by decide, by decide, by decide⟩
  rw [hh, hl] at hiff
  exact absurd (hiff.mpr rfl) (by decide)

end VxWorks.Netinet
