import VxWorks.Ppp.AckExact

/-!
# The options of a Nak (`lcp.c`, `ipcp.c`)

A Configure-Nak gives back some of the options of the request it answers, in
their order and with other values. `nakci` goes along the options it has asked
for and takes the next option of the packet for each, if that has the type and
the length it expects. No two of the options of a request have both in common,
so where it expects what was sent nothing is left over, and the Nak is good.

For LCP it does, and for the compression option of IPCP in both its forms. The
address is the exception: in the old form it is sent under `CI_ADDRS`, and the
Nak of it is expected under `CI_ADDR`. It is left over, and then it is an option
that we asked for and should have come earlier: the Nak is bad.
-/

namespace VxWorks.Ppp

open VxWorks.Lib

/-! ## Shapes -/

/-- The type and the length of an option. -/
def ReqCi.shape : ReqCi → Option (UInt8 × UInt8)
  | .opt citype cilen _ => some (citype, cilen)
  | .tail _ => none

/-- The shapes of the options in a packet. -/
def shapes (p : List UInt8) : List (UInt8 × UInt8) := (reqCis p.length p).filterMap ReqCi.shape

def SameShape (ci ci' : ReqCi) : Prop := ci.shape.isSome ∧ ci'.shape = ci.shape

/-- The Nak `p` has some of the options of `req`, in their order, with any values. -/
def NakOf (req p : List UInt8) : Prop :=
  ∃ naked, naked.Sublist (reqCis req.length req) ∧ List.Forall₂ SameShape naked (reqCis p.length p)

/-- The options of a Nak are whole, and have their shapes in a row. -/
def InRow (row : List (UInt8 × UInt8)) (cis : List ReqCi) : Prop :=
  (∀ ci ∈ cis, ci.Whole) ∧ (cis.filterMap ReqCi.shape).Sublist row

theorem shapes_of_same {cis cis' : List ReqCi} (h : List.Forall₂ SameShape cis cis') :
    cis'.filterMap ReqCi.shape = cis.filterMap ReqCi.shape ∧
      ∀ ci ∈ cis', ci.shape.isSome := by
  induction h with
  | nil => exact ⟨rfl, nofun⟩
  | cons hci _ ih =>
      obtain ⟨s, hs⟩ := Option.isSome_iff_exists.mp hci.1
      have hs' := hci.2.trans hs
      refine ⟨by rw [List.filterMap_cons_some hs, List.filterMap_cons_some hs', ih.1], ?_⟩
      intro ci hmem
      rcases List.mem_cons.mp hmem with rfl | hrest
      · exact Option.isSome_iff_exists.mpr ⟨s, hs'⟩
      · exact ih.2 ci hrest

theorem NakOf.inRow {req p : List UInt8} (h : NakOf req p) :
    InRow (shapes req) (reqCis p.length p) := by
  obtain ⟨naked, hsub, hsame⟩ := h
  obtain ⟨hshapes, hsome⟩ := shapes_of_same hsame
  refine ⟨?_, ?_⟩
  · intro ci hci
    have hwf := reqCis_wellFormed ci hci
    cases ci with
    | opt citype cilen body => exact hwf
    | tail octets => cases hsome _ hci
  · rw [hshapes]
    exact hsub.filterMap _

/-- Cutting a packet off leaves the shapes in front of the cut. -/
theorem shapes_reqCis_take (rounds : Nat) (p : List UInt8) (n : Nat) :
    (reqCis rounds (p.take n)).filterMap ReqCi.shape <+:
      (reqCis rounds p).filterMap ReqCi.shape := by
  induction rounds generalizing p n with
  | zero => exact List.nil_prefix
  | succ rounds ih =>
      match p, n with
      | [], n => simp [reqCis]
      | [b], 0 => exact List.nil_prefix
      | [b], n + 1 => simp [reqCis, ReqCi.shape]
      | citype :: cilen :: rest, 0 => exact List.nil_prefix
      | citype :: cilen :: rest, 1 => exact List.nil_prefix
      | citype :: cilen :: rest, n + 2 =>
          rw [List.take_succ_cons, List.take_succ_cons, reqCis, reqCis]
          by_cases hcut : cilen < 2 ∨ (rest.take n).length + 2 < cilen.toNat
          · rw [if_pos hcut]
            exact List.nil_prefix
          · have hwhole : ¬ (cilen < 2 ∨ rest.length + 2 < cilen.toNat) := by
              rw [List.length_take] at hcut
              refine fun hbad => hcut (hbad.imp_right ?_)
              intro hlen
              omega
            have hshape (body : List UInt8) :
                (ReqCi.opt citype cilen body).shape = some (citype, cilen) := rfl
            rw [if_neg hcut, if_neg hwhole, List.filterMap_cons_some (hshape _),
              List.filterMap_cons_some (hshape _), List.drop_take]
            exact (List.prefix_cons_inj _).mpr (ih _ _)

theorem shapes_take (p : List UInt8) (n : Nat) : shapes (p.take n) <+: shapes p := by
  have hle : (p.take n).length ≤ p.length := by
    rw [List.length_take]
    exact min_le_right _ _
  rw [shapes]
  rw [reqCis_enough (Nat.le_refl _) hle]
  exact shapes_reqCis_take _ p n

theorem shapes_flatMap {cis : List ReqCi} (h : ∀ ci ∈ cis, ci.Whole) :
    shapes (cis.flatMap ReqCi.octets) = cis.filterMap ReqCi.shape := by
  rw [shapes]
  rw [reqCis_flatMap h (Nat.le_refl _)]

/-! ## One macro -/

/-- The shape of an option that is asked for. -/
def optShape (neg : Bool) (opt cilen : UInt8) : List (UInt8 × UInt8) :=
  if neg then [(opt, cilen)] else []

/-- The option itself. -/
def optCi (neg : Bool) (opt cilen : UInt8) (octets : List UInt8) : List ReqCi :=
  if neg then [.opt opt cilen octets] else []

theorem mem_optCi {neg : Bool} {opt cilen : UInt8} {octets : List UInt8} {ci : ReqCi} :
    ci ∈ optCi neg opt cilen octets ↔ neg = true ∧ ci = .opt opt cilen octets := by
  cases neg <;> simp [optCi]

theorem flatMap_optCi (neg : Bool) (opt cilen : UInt8) (octets : List UInt8) :
    (optCi neg opt cilen octets).flatMap ReqCi.octets =
      if neg then opt :: cilen :: octets else [] := by
  cases neg <;> simp [optCi, ReqCi.octets]

theorem shape_optCi (neg : Bool) (opt cilen : UInt8) (octets : List UInt8) :
    (optCi neg opt cilen octets).filterMap ReqCi.shape = optShape neg opt cilen := by
  cases neg <;> rfl

section

variable {α : Type} {neg : Bool} {opt cilen : UInt8} {body : Codec α}
  {row : List (UInt8 × UInt8)} {cis : List ReqCi}

/-- What a `NAKCIxxx` macro does with options in a row that starts with its own: it takes
the first if that has the shape it expects, and leaves options in the rest of the row. -/
structure NakStep (opt cilen : UInt8) (body : Codec α) (row : List (UInt8 × UInt8))
    (cis : List ReqCi) (r : Option α × List UInt8) (cis' : List ReqCi) : Prop where
  rest : r.2 = cis'.flatMap ReqCi.octets
  inRow : InRow row cis'
  found : ∀ b, .opt opt cilen b ∈ cis → ∃ v, r.1 = some v ∧ body.get b = some (v, [])
  kept : ∀ ci ∈ cis, ci.shape ≠ some (opt, cilen) → ci ∈ cis'

theorem InRow.not_mem {b : List UInt8} (h : InRow row cis) (hrow : (opt, cilen) ∉ row) :
    .opt opt cilen b ∉ cis := by
  intro hmem
  have hshape : (opt, cilen) ∈ cis.filterMap ReqCi.shape :=
    List.mem_filterMap.mpr ⟨.opt opt cilen b, hmem, rfl⟩
  exact hrow (h.2.subset hshape)

theorem InRow.mem {b : List UInt8} (h : InRow row cis) (hmem : .opt opt cilen b ∈ cis) :
    (opt, cilen) ∈ row :=
  by_contra fun hrow => h.not_mem hrow hmem

/-- An option with the first shape of the row comes first. -/
theorem InRow.first {b : List UInt8} (h : InRow ((opt, cilen) :: row) cis)
    (hmem : .opt opt cilen b ∈ cis) (hrow : (opt, cilen) ∉ row) :
    ∃ b' cis', cis = .opt opt cilen b' :: cis' := by
  rcases List.sublist_cons_iff.mp h.2 with hsub | ⟨r, heq, -⟩
  · exact absurd hmem (InRow.not_mem ⟨h.1, hsub⟩ hrow)
  · match cis with
    | [] => cases hmem
    | .tail octets :: cis => exact (h.1 (.tail octets) List.mem_cons_self).elim
    | .opt t l b' :: cis =>
        obtain ⟨heq, -⟩ := List.cons.inj heq
        obtain ⟨rfl, rfl⟩ := Prod.mk.inj heq
        exact ⟨b', cis, rfl⟩

/-- Where the option is not next, nothing is taken. -/
theorem NakStep.of_none (hin : InRow row cis) (hrow : (opt, cilen) ∉ row) :
    NakStep opt cilen body row cis (none, cis.flatMap ReqCi.octets) cis where
  rest := rfl
  inRow := hin
  found _ hmem := absurd hmem (hin.not_mem hrow)
  kept _ hmem _ := hmem

/-- An option that does not start the packet is not taken. -/
theorem nakci_head {t l : UInt8} {p : List UInt8} (h : t ≠ opt ∨ l ≠ cilen) :
    nakci neg (.tagged opt cilen body) (t :: l :: p) = (none, t :: l :: p) := by
  have hget : (Codec.tagged opt cilen body).get (t :: l :: p) = none := by
    refine if_neg ?_
    intro hhead
    rcases h with h | h
    · exact h hhead.2
    · exact h hhead.1
  unfold nakci
  rw [hget]
  cases neg <;> rfl

theorem nakci_absent (hin : InRow row cis) (hrow : (opt, cilen) ∉ row) :
    nakci neg (.tagged opt cilen body) (cis.flatMap ReqCi.octets) =
      (none, cis.flatMap ReqCi.octets) := by
  match cis with
  | [] => cases neg <;> rfl
  | .tail octets :: cis => exact (hin.1 (.tail octets) List.mem_cons_self).elim
  | .opt t l b :: cis =>
      refine @nakci_head _ _ _ _ _ t l (b ++ cis.flatMap ReqCi.octets) ?_
      by_contra hsame
      obtain ⟨ht, hl⟩ := not_or.mp hsame
      rw [← not_ne_iff.mp ht, ← not_ne_iff.mp hl] at hrow
      exact hin.not_mem hrow List.mem_cons_self

theorem nakci_step (hbody : body.Takes (cilen.toNat - 2)) (hrow : (opt, cilen) ∉ row)
    (hin : InRow (optShape neg opt cilen ++ row) cis) :
    ∃ cis', NakStep opt cilen body row cis
      (nakci neg (.tagged opt cilen body) (cis.flatMap ReqCi.octets)) cis' := by
  unfold nakci
  cases neg with
  | false => exact ⟨cis, NakStep.of_none hin hrow⟩
  | true =>
      rw [if_pos rfl]
      match cis with
      | [] => exact ⟨[], NakStep.of_none ⟨nofun, List.nil_sublist _⟩ hrow⟩
      | .tail octets :: cis => exact (hin.1 (.tail octets) List.mem_cons_self).elim
      | .opt t l b :: cis =>
          have hlen : l.toNat = b.length + 2 := hin.1 (.opt t l b) List.mem_cons_self
          have hwhole : ∀ ci ∈ cis, ci.Whole := fun ci hci => hin.1 ci (List.mem_cons_of_mem _ hci)
          have hsub : ((t, l) :: cis.filterMap ReqCi.shape).Sublist ((opt, cilen) :: row) := hin.2
          by_cases hhead : l = cilen ∧ t = opt
          · obtain ⟨rfl, rfl⟩ := hhead
            have hrest : InRow row cis := ⟨hwhole, List.cons_sublist_cons.mp hsub⟩
            have htakes := hbody b
            rw [if_pos (by omega)] at htakes
            obtain ⟨v, hv⟩ := htakes
            rw [List.drop_eq_nil_of_le (by omega)] at hv
            have hget : (Codec.tagged t l body).get
                ((ReqCi.opt t l b :: cis).flatMap ReqCi.octets) =
                  some (v, cis.flatMap ReqCi.octets) := by
              have hput : b = body.put v := by simpa using body.put_get hv
              show (if l = l ∧ t = t then body.get (b ++ cis.flatMap ReqCi.octets) else none) = _
              rw [if_pos ⟨rfl, rfl⟩, hput, body.get_put]
            rw [hget]
            refine ⟨cis, rfl, hrest, ?_, ?_⟩
            · intro b' hmem
              rcases List.mem_cons.mp hmem with heq | hmem
              · obtain rfl : b' = b := by simpa using heq
                exact ⟨v, rfl, hv⟩
              · exact absurd hmem (hrest.not_mem hrow)
            · intro ci hmem hne
              rcases List.mem_cons.mp hmem with rfl | hmem
              · exact absurd rfl hne
              · exact hmem
          · have hrest : InRow row (.opt t l b :: cis) := by
              refine ⟨hin.1, ?_⟩
              rcases List.sublist_cons_iff.mp hsub with hsub | ⟨r, heq, -⟩
              · exact hsub
              · obtain ⟨heq, -⟩ := List.cons.inj heq
                exact absurd ⟨congrArg Prod.snd heq, congrArg Prod.fst heq⟩ hhead
            have hget : (Codec.tagged opt cilen body).get
                ((ReqCi.opt t l b :: cis).flatMap ReqCi.octets) = none := if_neg hhead
            rw [hget]
            exact ⟨_, NakStep.of_none hrest hrow⟩

/-- A row that is used up leaves nothing over. -/
theorem InRow.nil (h : InRow [] cis) : cis = [] := by
  match cis with
  | [] => rfl
  | .tail octets :: cis => exact (h.1 (.tail octets) List.mem_cons_self).elim
  | .opt t l b :: cis => cases List.sublist_nil.mp h.2

theorem mem_optShape {x : UInt8 × UInt8} :
    x ∈ optShape neg opt cilen ↔ neg = true ∧ x = (opt, cilen) := by
  cases neg <;> simp [optShape]

/-- A value that is in a packet is what is read of it. -/
theorem NakStep.read {r : Option α × List UInt8} {cis' : List ReqCi}
    (h : NakStep opt cilen body row cis r cis') {v : α}
    (hmem : .opt opt cilen (body.put v) ∈ cis) : r.1 = some v := by
  obtain ⟨w, hw, hget⟩ := h.found _ hmem
  have hput := body.get_put v []
  rw [List.append_nil, hget] at hput
  rw [hw, (Prod.mk.inj (Option.some.inj hput)).1]

end

/-! ## LCP -/

/-- The shapes of the options that `gotoptions` stands for. -/
def lcpShapes (go : LcpOptions) : List (UInt8 × UInt8) :=
  optShape go.negMru ciMru cilenShort ++
  (optShape go.negAsyncmap ciAsyncmap cilenLong ++
  (optShape go.negChap ciAuthtype cilenChap ++
  (optShape (!go.negChap && go.negUpap) ciAuthtype cilenShort ++
  (optShape go.negLqr ciQuality cilenLqr ++
  (optShape go.negMagicnumber ciMagicnumber cilenLong ++
  (optShape go.negPcompression ciPcompression cilenVoid ++
  (optShape go.negAccompression ciAccompression cilenVoid ++ [])))))))

/-- What `lcp_nakci` reads of a Nak in the row of our options: nothing is left over, and of
the value for the asyncmap. -/
theorem lcpNak_reads {go : LcpOptions} {cis : List ReqCi} (hin : InRow (lcpShapes go) cis) :
    let mru := nakci go.negMru (ciShort ciMru) (cis.flatMap ReqCi.octets)
    let asyncmap := nakci go.negAsyncmap (ciLong ciAsyncmap) mru.2
    let chap := nakci go.negChap (ciChap ciAuthtype) asyncmap.2
    let upap := nakci (!go.negChap && go.negUpap) (ciShort ciAuthtype) chap.2
    let lqr := nakci go.negLqr (ciLqr ciQuality) upap.2
    let magicnumber := nakci go.negMagicnumber (ciLong ciMagicnumber) lqr.2
    let pcompression := nakci go.negPcompression (ciVoid ciPcompression) magicnumber.2
    let accompression := nakci go.negAccompression (ciVoid ciAccompression) pcompression.2
    accompression.2 = [] ∧
      ∀ v, .opt ciAsyncmap cilenLong (put32 v) ∈ cis → asyncmap.1 = some v := by
  intro mru asyncmap chap upap lqr magicnumber pcompression accompression
  obtain ⟨c₁, h₁⟩ := nakci_step Codec.takes_short
    (by simp [mem_optShape, ciMru, ciAsyncmap, ciAuthtype, ciQuality, ciMagicnumber,
      ciPcompression, ciAccompression]) hin
  obtain ⟨c₂, h₂⟩ := nakci_step Codec.takes_long
    (by simp [mem_optShape, ciAsyncmap, ciAuthtype, ciQuality, ciMagicnumber, ciPcompression,
      ciAccompression]) h₁.inRow
  obtain ⟨c₃, h₃⟩ := nakci_step (Codec.takes_short.pair Codec.takes_octet)
    (by simp [mem_optShape, ciAuthtype, ciQuality, ciMagicnumber, ciPcompression,
      ciAccompression, cilenChap, cilenShort]) h₂.inRow
  obtain ⟨c₄, h₄⟩ := nakci_step Codec.takes_short
    (by simp [mem_optShape, ciAuthtype, ciQuality, ciMagicnumber, ciPcompression,
      ciAccompression]) h₃.inRow
  obtain ⟨c₅, h₅⟩ := nakci_step (Codec.takes_short.pair Codec.takes_long)
    (by simp [mem_optShape, ciQuality, ciMagicnumber, ciPcompression, ciAccompression]) h₄.inRow
  obtain ⟨c₆, h₆⟩ := nakci_step Codec.takes_long
    (by simp [mem_optShape, ciMagicnumber, ciPcompression, ciAccompression]) h₅.inRow
  obtain ⟨c₇, h₇⟩ := nakci_step Codec.takes_void
    (by simp [mem_optShape, ciPcompression, ciAccompression]) h₆.inRow
  obtain ⟨c₈, h₈⟩ := nakci_step Codec.takes_void (by simp) h₇.inRow
  have e₁ : mru.2 = c₁.flatMap ReqCi.octets := h₁.rest
  have e₂ : asyncmap.2 = c₂.flatMap ReqCi.octets := by
    rw [← h₂.rest, ← e₁]
    rfl
  have e₃ : chap.2 = c₃.flatMap ReqCi.octets := by
    rw [← h₃.rest, ← e₂]
    rfl
  have e₄ : upap.2 = c₄.flatMap ReqCi.octets := by
    rw [← h₄.rest, ← e₃]
    rfl
  have e₅ : lqr.2 = c₅.flatMap ReqCi.octets := by
    rw [← h₅.rest, ← e₄]
    rfl
  have e₆ : magicnumber.2 = c₆.flatMap ReqCi.octets := by
    rw [← h₆.rest, ← e₅]
    rfl
  have e₇ : pcompression.2 = c₇.flatMap ReqCi.octets := by
    rw [← h₇.rest, ← e₆]
    rfl
  have e₈ : accompression.2 = c₈.flatMap ReqCi.octets := by
    rw [← h₈.rest, ← e₇]
    rfl
  refine ⟨by rw [e₈, h₈.inRow.nil]; rfl, fun v hv => ?_⟩
  have hread := h₂.read (h₁.kept _ hv (by simp [ReqCi.shape, ciAsyncmap, ciMru]))
  rw [← e₁] at hread
  exact hread

/-- The options that `gotoptions` stands for. -/
def lcpCis (go : LcpOptions) : List ReqCi :=
  optCi go.negMru ciMru cilenShort (put16 go.mru) ++
  optCi go.negAsyncmap ciAsyncmap cilenLong (put32 go.asyncmap) ++
  optCi go.negChap ciAuthtype cilenChap (put16 chapProto ++ [go.chapMdtype]) ++
  optCi (!go.negChap && go.negUpap) ciAuthtype cilenShort (put16 upapProto) ++
  optCi go.negLqr ciQuality cilenLqr (put16 lqrProto ++ put32 go.lqrPeriod) ++
  optCi go.negMagicnumber ciMagicnumber cilenLong (put32 go.magicnumber) ++
  optCi go.negPcompression ciPcompression cilenVoid [] ++
  optCi go.negAccompression ciAccompression cilenVoid []

theorem flatMap_lcpCis (go : LcpOptions) : (lcpCis go).flatMap ReqCi.octets = lcpAddci go := by
  simp only [lcpCis, lcpAddci, List.flatMap_append, flatMap_optCi]
  rfl

theorem lcpCis_whole (go : LcpOptions) : ∀ ci ∈ lcpCis go, ci.Whole := by
  intro ci hci
  simp only [lcpCis, List.mem_append, mem_optCi] at hci
  rcases hci with ((((((⟨-, rfl⟩ | ⟨-, rfl⟩) | ⟨-, rfl⟩) | ⟨-, rfl⟩) | ⟨-, rfl⟩) | ⟨-, rfl⟩) |
    ⟨-, rfl⟩) | ⟨-, rfl⟩ <;> rfl

theorem shapes_lcpAddci (go : LcpOptions) : shapes (lcpAddci go) = lcpShapes go := by
  rw [← flatMap_lcpCis, shapes_flatMap (lcpCis_whole go)]
  simp only [lcpCis, lcpShapes, List.filterMap_append, shape_optCi, List.append_assoc,
    List.append_nil]

/-- A Nak in the row of our options is good, and outside of `OPENED` its characters are added
to our asyncmap. -/
theorem lcpNakci_good (magic : Nat → UInt32) (opened : Bool) (o : Lcp) {p : List UInt8}
    (hin : InRow (lcpShapes o.got) (reqCis p.length p)) :
    (lcpNakci magic opened o p).1 = some true ∧
      (opened = false → ∀ v, .opt ciAsyncmap cilenLong (put32 v) ∈ reqCis p.length p →
        (lcpNakci magic opened o p).2.got.negAsyncmap = o.got.negAsyncmap ∧
        (lcpNakci magic opened o p).2.got.asyncmap = o.got.asyncmap ||| v) := by
  obtain ⟨hrest, hread⟩ := lcpNak_reads hin
  rw [flatMap_reqCis (Nat.le_refl _)] at hrest hread
  have hend (no : LcpOptions) :
      lcpNakRest o.got no (([] : List UInt8).length + 1) [] = some true := rfl
  unfold lcpNakci
  dsimp only
  rw [hrest, hend]
  refine ⟨rfl, ?_⟩
  intro hopened v hv
  rw [hread v hv]
  subst hopened
  exact ⟨rfl, rfl⟩

/-- `lcp_nakci` may change `gotoptions`, and it may draw a number. -/
theorem lcpNakci_cases (magic : Nat → UInt32) (opened : Bool) (o : Lcp) (p : List UInt8) :
    ∃ n, (lcpNakci magic opened o p).2 = { o with drawn := n } ∨
      (lcpNakci magic opened o p).1 = some true ∧
        ∃ go, (lcpNakci magic opened o p).2 = { o with drawn := n, got := go } := by
  obtain ⟨n, try', r, hr⟩ := lcpNakci_outcome magic opened o p
  rw [hr]
  match r with
  | none => exact ⟨n, .inl rfl⟩
  | some false => exact ⟨n, .inl rfl⟩
  | some true =>
      cases opened with
      | true => exact ⟨n, .inl rfl⟩
      | false => exact ⟨n, .inr ⟨rfl, try', rfl⟩⟩

/-- A Nak that is not good leaves our options alone. -/
theorem lcpNakci_got {magic : Nat → UInt32} {opened : Bool} {o : Lcp} {p : List UInt8}
    (h : (lcpNakci magic opened o p).1 ≠ some true) :
    (lcpNakci magic opened o p).2.got = o.got := by
  obtain ⟨n, hsame | ⟨hgood, -⟩⟩ := lcpNakci_cases magic opened o p
  · rw [hsame]
  · exact absurd hgood h

theorem lcpNakci_peerMru (magic : Nat → UInt32) (opened : Bool) (o : Lcp) (p : List UInt8) :
    (lcpNakci magic opened o p).2.peerMru = o.peerMru := by
  obtain ⟨n, hsame | ⟨-, go, hgo⟩⟩ := lcpNakci_cases magic opened o p
  · rw [hsame]
  · rw [hgo]

theorem mem_lcpCis_asyncmap {go : LcpOptions} (h : go.negAsyncmap = true) :
    .opt ciAsyncmap cilenLong (put32 go.asyncmap) ∈ lcpCis go := by
  simp [lcpCis, mem_optCi, h]

/-! ## IPCP -/

/-- The options that `gotoptions` stands for. -/
def ipcpCis (go : IpcpOptions) : List ReqCi :=
  optCi (go.negAddr && go.oldAddrs) ciAddrs cilenAddrs (put32 go.ouraddr ++ put32 go.hisaddr) ++
  optCi (go.negAddr && !go.oldAddrs) ciAddr cilenAddr (put32 go.ouraddr) ++
  optCi (go.negVj && go.oldVj) ciCompresstype cilenCompress (put16 go.vjProtocol) ++
  optCi (go.negVj && !go.oldVj) ciCompresstype cilenVj
    (put16 go.vjProtocol ++ [go.maxslotindex, go.cflag])

/-- The shapes of all but the old form of the address. -/
def ipcpRead (go : IpcpOptions) : List (UInt8 × UInt8) :=
  optShape (go.negAddr && !go.oldAddrs) ciAddr cilenAddr ++
  (optShape (go.negVj && go.oldVj) ciCompresstype cilenCompress ++
  (optShape (go.negVj && !go.oldVj) ciCompresstype cilenVj ++ []))

def ipcpShapes (go : IpcpOptions) : List (UInt8 × UInt8) :=
  optShape (go.negAddr && go.oldAddrs) ciAddrs cilenAddrs ++ ipcpRead go

theorem flatMap_ipcpCis (go : IpcpOptions) :
    (ipcpCis go).flatMap ReqCi.octets = ownOctets go := by
  rw [ipcpCis, ownOctets, addrOctets, vjOctets]
  cases go.negAddr <;> cases go.oldAddrs <;> cases go.negVj <;> cases go.oldVj <;> rfl

theorem ipcpCis_whole (go : IpcpOptions) : ∀ ci ∈ ipcpCis go, ci.Whole := by
  intro ci hci
  simp only [ipcpCis, List.mem_append, mem_optCi] at hci
  rcases hci with ((⟨-, rfl⟩ | ⟨-, rfl⟩) | ⟨-, rfl⟩) | ⟨-, rfl⟩ <;> rfl

theorem shapes_ownOctets (go : IpcpOptions) : shapes (ownOctets go) = ipcpShapes go := by
  rw [← flatMap_ipcpCis, shapes_flatMap (ipcpCis_whole go)]
  simp only [ipcpCis, ipcpShapes, ipcpRead, List.filterMap_append, shape_optCi,
    List.append_assoc, List.append_nil]

section

variable {go : IpcpOptions} {cis : List ReqCi}

/-- Without the old form of the address the options are in the row that is read. -/
theorem InRow.read (hin : InRow (ipcpShapes go) cis)
    (hnew : ∀ b, .opt ciAddrs cilenAddrs b ∉ cis) : InRow (ipcpRead go) cis := by
  refine ⟨hin.1, ?_⟩
  have hsub : (cis.filterMap ReqCi.shape).Sublist
      (optShape (go.negAddr && go.oldAddrs) ciAddrs cilenAddrs ++ ipcpRead go) := hin.2
  cases hold : go.negAddr && go.oldAddrs with
  | false =>
      rw [hold] at hsub
      exact hsub
  | true =>
      rw [hold] at hsub
      rcases List.sublist_cons_iff.mp hsub with hsub | ⟨r, heq, -⟩
      · exact hsub
      · have hmem : (ciAddrs, cilenAddrs) ∈ cis.filterMap ReqCi.shape := by
          rw [heq]
          exact List.mem_cons_self
        obtain ⟨ci, hci, hshape⟩ := List.mem_filterMap.mp hmem
        cases ci with
        | tail octets => cases hshape
        | opt t l b =>
            obtain ⟨rfl, rfl⟩ := Prod.mk.inj (Option.some.inj hshape)
            exact absurd hci (hnew b)

/-- The shapes of the compression option. -/
def vjRead (go : IpcpOptions) : List (UInt8 × UInt8) :=
  optShape (go.negVj && go.oldVj) ciCompresstype cilenCompress ++
  (optShape (go.negVj && !go.oldVj) ciCompresstype cilenVj ++ [])

/-- `NAKCIADDR` takes the address, and our idea of it changes if it may. -/
theorem ipcpNakAddr_reads (hin : InRow (ipcpRead go) cis) (k : IpcpNak) :
    ∃ cis' addr, InRow (vjRead go) cis' ∧
      (ipcpNakAddr go k (cis.flatMap ReqCi.octets)).2 = cis'.flatMap ReqCi.octets ∧
      (ipcpNakAddr go k (cis.flatMap ReqCi.octets)).1.try' = { k.try' with ouraddr := addr } ∧
      (∀ ci ∈ cis, ci.shape ≠ some (ciAddr, cilenAddr) → ci ∈ cis') ∧
      ∀ v, v ≠ 0 → .opt ciAddr cilenAddr (put32 v) ∈ cis → go.acceptLocal = true → addr = v := by
  have htwo : nakci (go.negAddr && go.oldAddrs) (ciTwoAddrs ciAddr)
      (cis.flatMap ReqCi.octets) = (none, cis.flatMap ReqCi.octets) := by
    refine nakci_absent hin ?_
    simp [ipcpRead, mem_optShape, ciAddr, cilenAddrs, cilenAddr, ciCompresstype]
  obtain ⟨cis', hstep⟩ := @nakci_step _ (go.negAddr && !go.oldAddrs) ciAddr cilenAddr _
    (vjRead go) _ Codec.takes_long (by simp [vjRead, mem_optShape, ciAddr, ciCompresstype]) hin
  unfold ipcpNakAddr
  rw [htwo]
  dsimp only
  cases hone : (nakci (go.negAddr && !go.oldAddrs) (ciOneAddr ciAddr)
      (cis.flatMap ReqCi.octets)).1 with
  | none =>
      refine ⟨cis', k.try'.ouraddr, hstep.inRow, hstep.rest, rfl, hstep.kept, ?_⟩
      intro v _ hv
      cases hone.symm.trans (hstep.read hv)
  | some addr =>
      refine ⟨cis', if go.acceptLocal ∧ addr ≠ 0 then addr else k.try'.ouraddr, hstep.inRow,
        hstep.rest, ?_, hstep.kept, ?_⟩
      · simp [acceptAddrs]
      · intro v hne hv hlocal
        obtain rfl : addr = v := Option.some.inj (hone.symm.trans (hstep.read hv))
        exact if_pos ⟨hlocal, hne⟩

/-- What `NAKCIVJ` makes of the compression option, in either form: a smaller slot index is
taken over, and the address stays as it is. -/
structure VjTaken (go : IpcpOptions) (k : IpcpNak) (cis : List ReqCi)
    (r : IpcpNak × List UInt8) : Prop where
  rest : r.2 = []
  negAddr : r.1.try'.negAddr = k.try'.negAddr
  oldAddrs : r.1.try'.oldAddrs = k.try'.oldAddrs
  ouraddr : r.1.try'.ouraddr = k.try'.ouraddr
  slot : ∀ slot flag, .opt ciCompresstype cilenVj (put16 ipcpVjComp ++ [slot, flag]) ∈ cis →
    slot < go.maxslotindex →
      r.1.try'.negVj = k.try'.negVj ∧ r.1.try'.oldVj = false ∧ r.1.try'.maxslotindex = slot

theorem ipcpNakVj_reads (hin : InRow (vjRead go) cis) (k : IpcpNak) :
    VjTaken go k cis (ipcpNakVj go k (cis.flatMap ReqCi.octets)) := by
  have hnil (neg : Bool) : nakci neg ciOldVj [] = (none, []) := by cases neg <;> rfl
  cases hold : go.oldVj with
  | false =>
      have hrow : InRow (optShape go.negVj ciCompresstype cilenVj ++ []) cis := by
        simpa [vjRead, hold, optShape] using hin
      obtain ⟨cis', hstep⟩ := @nakci_step _ go.negVj ciCompresstype cilenVj _ [] _
        (Codec.takes_short.pair (Codec.takes_octet.pair Codec.takes_octet)) (by simp) hrow
      have hrest : (nakci go.negVj ciVj (cis.flatMap ReqCi.octets)).2 = [] := by
        rw [← List.flatMap_nil (f := ReqCi.octets), ← hstep.inRow.nil]
        exact hstep.rest
      unfold ipcpNakVj
      dsimp only
      rw [hrest, hnil]
      cases hnew : (nakci go.negVj ciVj (cis.flatMap ReqCi.octets)).1 with
      | none =>
          refine ⟨rfl, rfl, rfl, rfl, ?_⟩
          intro slot flag hv _
          exact absurd (hnew.symm.trans (hstep.read (v := (ipcpVjComp, slot, flag)) hv)) nofun
      | some value =>
          obtain ⟨proto, slot, flag⟩ := value
          dsimp only
          refine ⟨rfl, ?_, ?_, ?_, fun slot' flag' hv hless => ?_⟩
          iterate 3 split <;> rfl
          · have hread := hstep.read (v := (ipcpVjComp, slot', flag')) hv
            have hsame : (proto, slot, flag) = (ipcpVjComp, slot', flag') :=
              Option.some.inj (hnew.symm.trans hread)
            obtain ⟨rfl, hpair⟩ := Prod.mk.inj hsame
            obtain ⟨rfl, rfl⟩ := Prod.mk.inj hpair
            rw [if_pos rfl]
            exact ⟨rfl, rfl, if_pos hless⟩
  | true =>
      have hrow : InRow (optShape go.negVj ciCompresstype cilenCompress ++ []) cis := by
        simpa [vjRead, hold, optShape] using hin
      have hapart : (ciCompresstype, cilenVj) ∉
          optShape go.negVj ciCompresstype cilenCompress ++ [] := by
        simp [mem_optShape, cilenVj, cilenCompress]
      have hnew : nakci go.negVj ciVj (cis.flatMap ReqCi.octets) =
          (none, cis.flatMap ReqCi.octets) := nakci_absent hrow hapart
      obtain ⟨cis', hstep⟩ := @nakci_step _ go.negVj ciCompresstype cilenCompress _ [] _
        Codec.takes_short (by simp) hrow
      have hrest : (nakci go.negVj ciOldVj (cis.flatMap ReqCi.octets)).2 = [] := by
        rw [← List.flatMap_nil (f := ReqCi.octets), ← hstep.inRow.nil]
        exact hstep.rest
      unfold ipcpNakVj
      dsimp only
      rw [hnew]
      dsimp only
      rw [Option.isNone_none, Bool.and_true, hrest]
      cases (nakci go.negVj ciOldVj (cis.flatMap ReqCi.octets)).1 with
      | none =>
          exact ⟨rfl, rfl, rfl, rfl, fun slot flag hv _ => absurd hv (hrow.not_mem hapart)⟩
      | some proto =>
          dsimp only
          refine ⟨rfl, ?_, ?_, ?_, fun slot flag hv _ => absurd hv (hrow.not_mem hapart)⟩
          iterate 3 split <;> rfl

theorem mem_ipcpCis_addr (hneg : go.negAddr = true) (hold : go.oldAddrs = false) :
    .opt ciAddr cilenAddr (put32 go.ouraddr) ∈ ipcpCis go := by
  simp [ipcpCis, mem_optCi, hneg, hold]

theorem mem_ipcpCis_vj (hneg : go.negVj = true) (hold : go.oldVj = false) :
    .opt ciCompresstype cilenVj (put16 go.vjProtocol ++ [go.maxslotindex, go.cflag]) ∈
      ipcpCis go := by
  simp [ipcpCis, mem_optCi, hneg, hold]

/-- A Nak in the row of our options without the old form of the address is good, and outside
of `OPENED` the address and the slot index in it are taken over. -/
theorem ipcpNakci_good (opened : Bool) (o : Ipcp) {p : List UInt8}
    (hin : InRow (ipcpRead o.got) (reqCis p.length p)) :
    (ipcpNakci opened o p).1 = true ∧
      (opened = false →
        (∀ v, v ≠ 0 → .opt ciAddr cilenAddr (put32 v) ∈ reqCis p.length p →
          o.got.acceptLocal = true →
            .opt ciAddr cilenAddr (put32 v) ∈ ipcpCis (ipcpNakci opened o p).2.got) ∧
        ∀ slot flag, .opt ciCompresstype cilenVj (put16 ipcpVjComp ++ [slot, flag]) ∈
            reqCis p.length p → slot < o.got.maxslotindex →
          ∃ proto flag', .opt ciCompresstype cilenVj (put16 proto ++ [slot, flag']) ∈
            ipcpCis (ipcpNakci opened o p).2.got) := by
  obtain ⟨k, hk⟩ : ∃ k : IpcpNak, k = { no := IpcpOptions.zero, try' := o.got } := ⟨_, rfl⟩
  obtain ⟨cis, addr, hin', hrest, htry, hkept, haddr⟩ := ipcpNakAddr_reads hin k
  rw [flatMap_reqCis (Nat.le_refl _)] at hrest htry
  have hvj := ipcpNakVj_reads hin' (ipcpNakAddr o.got k p).1
  rw [← hrest] at hvj
  have hgood : ipcpNakci opened o p = (true, if opened then o else { o with
      got := (ipcpNakVj o.got (ipcpNakAddr o.got k p).1 (ipcpNakAddr o.got k p).2).1.try' }) := by
    rw [hk] at hvj ⊢
    unfold ipcpNakci
    dsimp only
    rw [hvj.rest]
    rfl
  obtain ⟨go, hgo⟩ : ∃ go, go =
      (ipcpNakVj o.got (ipcpNakAddr o.got k p).1 (ipcpNakAddr o.got k p).2).1.try' := ⟨_, rfl⟩
  rw [hgood, ← hgo]
  refine ⟨rfl, ?_⟩
  intro hopened
  subst hopened
  dsimp only
  rw [if_neg Bool.false_ne_true]
  refine ⟨?_, ?_⟩
  · intro v hne hv hlocal
    obtain ⟨hneg, hold⟩ : o.got.negAddr = true ∧ o.got.oldAddrs = false := by
      simpa [ipcpRead, mem_optShape, ciAddr, ciCompresstype] using hin.mem hv
    have hneg' : go.negAddr = true := by
      rw [hgo, hvj.negAddr, htry, hk]
      exact hneg
    have hold' : go.oldAddrs = false := by
      rw [hgo, hvj.oldAddrs, htry, hk]
      exact hold
    have haddr' : go.ouraddr = v := by
      rw [hgo, hvj.ouraddr, htry]
      exact haddr v hne hv hlocal
    have hmem := mem_ipcpCis_addr hneg' hold'
    rwa [haddr'] at hmem
  · intro slot flag hv hless
    obtain ⟨hneg, -⟩ : o.got.negVj = true ∧ o.got.oldVj = false := by
      simpa [ipcpRead, mem_optShape, ciAddr, ciCompresstype, cilenVj, cilenCompress]
        using hin.mem hv
    have hv' : .opt ciCompresstype cilenVj (put16 ipcpVjComp ++ [slot, flag]) ∈ cis :=
      hkept _ hv (by simp [ReqCi.shape, ciAddr, ciCompresstype])
    obtain ⟨hneg', hold', hslot⟩ := hvj.slot slot flag hv' hless
    rw [← hgo] at hneg' hold' hslot
    rw [htry, hk] at hneg'
    have hmem := mem_ipcpCis_vj (hneg'.trans hneg) hold'
    rw [hslot] at hmem
    exact ⟨_, _, hmem⟩

/-- A Nak of the old form of the address is bad. -/
theorem ipcpNakci_bad (opened : Bool) (o : Ipcp) {p : List UInt8}
    (hin : InRow (ipcpShapes o.got) (reqCis p.length p)) {b : List UInt8}
    (hmem : .opt ciAddrs cilenAddrs b ∈ reqCis p.length p) :
    (ipcpNakci opened o p).1 = false := by
  obtain ⟨hneg, hold⟩ : o.got.negAddr = true ∧ o.got.oldAddrs = true := by
    simpa [ipcpShapes, ipcpRead, mem_optShape, ciAddrs, ciAddr, ciCompresstype] using hin.mem hmem
  -- it comes first, and neither of the macros takes it
  obtain ⟨b', hlen, rest, rfl⟩ : ∃ b' : List UInt8, b'.length = 8 ∧
      ∃ rest, p = ciAddrs :: cilenAddrs :: (b' ++ rest) := by
    have hrow : InRow ((ciAddrs, cilenAddrs) :: ipcpRead o.got) (reqCis p.length p) := by
      simpa [ipcpShapes, hneg, hold, optShape] using hin
    have hapart : (ciAddrs, cilenAddrs) ∉ ipcpRead o.got := by
      simp [ipcpRead, mem_optShape, ciAddrs, ciAddr, ciCompresstype]
    obtain ⟨b', cis, hcis⟩ := hrow.first hmem hapart
    have hwhole : (ReqCi.opt ciAddrs cilenAddrs b').Whole := hin.1 _ (by rw [hcis]; simp)
    have hlen : cilenAddrs.toNat = b'.length + 2 := hwhole
    have hp := @flatMap_reqCis p.length p (Nat.le_refl _)
    rw [hcis] at hp
    exact ⟨b', Nat.succ.inj (Nat.succ.inj hlen.symm), _, hp.symm⟩
  have haddr (k : IpcpNak) :
      ipcpNakAddr o.got k (ciAddrs :: cilenAddrs :: (b' ++ rest)) =
        (k, ciAddrs :: cilenAddrs :: (b' ++ rest)) := by
    have htwo := @nakci_head _ (o.got.negAddr && o.got.oldAddrs) ciAddr cilenAddrs
      (.pair .long .long) ciAddrs cilenAddrs (b' ++ rest) (.inl (by decide))
    have hone := @nakci_head _ (o.got.negAddr && !o.got.oldAddrs) ciAddr cilenAddr .long
      ciAddrs cilenAddrs (b' ++ rest) (.inl (by decide))
    unfold ipcpNakAddr ciTwoAddrs ciOneAddr
    rw [htwo]
    dsimp only
    rw [hone]
  have hvj (k : IpcpNak) :
      ipcpNakVj o.got k (ciAddrs :: cilenAddrs :: (b' ++ rest)) =
        (k, ciAddrs :: cilenAddrs :: (b' ++ rest)) := by
    have hnew := @nakci_head _ o.got.negVj ciCompresstype cilenVj
      (.pair .short (.pair .octet .octet)) ciAddrs cilenAddrs (b' ++ rest) (.inl (by decide))
    have hform := @nakci_head _ (o.got.negVj && true) ciCompresstype cilenCompress .short
      ciAddrs cilenAddrs (b' ++ rest) (.inl (by decide))
    unfold ipcpNakVj ciVj ciOldVj
    rw [hnew]
    dsimp only
    rw [Option.isNone_none, hform]
  have hrest (n : Nat) (k : IpcpNak) :
      ipcpNakRest o.got (n + 1) k (ciAddrs :: cilenAddrs :: (b' ++ rest)) = none := by
    have hextra (body : List UInt8) :
        ipcpNakExtra o.got k ciAddrs cilenAddrs body = none := by
      rw [ipcpNakExtra]
      rw [if_neg (by decide), if_pos rfl, hneg, hold]
      rfl
    cases b' with
    | nil => cases hlen
    | cons x b' => simp only [List.cons_append, ipcpNakRest, hextra, ite_self]
  unfold ipcpNakci
  rw [haddr]
  dsimp only
  rw [hvj]
  dsimp only
  rw [List.length_cons, hrest]

end

end VxWorks.Ppp
