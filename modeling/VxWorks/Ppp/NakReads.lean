import Mathlib.Tactic.Common
import VxWorks.Lib.Cursor
import VxWorks.Ppp.Ipcp

/-!
# Reading a Nak (`lcp.c`, `ipcp.c`)

`lcp_nakci` and `ipcp_nakci` go through a Configure-Nak twice over: once along the options
that we asked for, in our order, and then, behind those, along whatever else the peer would
like to talk about. Here they are with the pointer into the packet and the octets they read.

The second loop moves on by a length octet that comes from the packet. Every option that it
lets pass has had its length compared with the only one it can have, except for the
authentication protocol of LCP. With the length 0 the loop does not move, and finds the same
option again. In IPCP it is the macro for our compression option that reads a length before
it has looked whether there is one.
-/

namespace VxWorks.Ppp

open VxWorks.Lib

/-! ## The walk along our own options -/

/-- The offsets of what is behind the type and the length. -/
def bodyOffsets (cilen : UInt8) : List Nat := (List.range (cilen.toNat - 2)).map (2 + ·)

/-- `NAKCIxxx` and `NAKCIADDR`: the packet length, the option's length, its type. -/
def nakWalk (p : Buf) (neg : Bool) (opt cilen : UInt8) (c : Cursor) : Bool × Cursor :=
  if neg && decide (cilen.toNat ≤ c.len) then
    if p (c.pos + 1) = cilen then
      if p c.pos = opt then
        (true, (((c.look [1]).look [0]).look (bodyOffsets cilen)).skip cilen.toNat)
      else (false, (c.look [1]).look [0])
    else (false, c.look [1])
  else (false, c)

/-- `NAKCIVJ`: the option's length, which may be one of two, the packet length, the type. -/
def nakVjWalk (p : Buf) (neg : Bool) (c : Cursor) : Cursor :=
  if neg then
    let cilen := p (c.pos + 1)
    if (cilen = cilenCompress ∨ cilen = cilenVj) ∧ cilen.toNat ≤ c.len then
      let seen := (c.look [1]).look [0]
      if p c.pos = ciCompresstype then (seen.look (bodyOffsets cilen)).skip cilen.toNat else seen
    else c.look [1]
  else c

section

variable {p : Buf} {neg : Bool} {opt cilen : UInt8} {c : Cursor} {total : Nat}

theorem lt_of_mem_bodyOffsets {i : Nat} (hi : i ∈ bodyOffsets cilen) : i < cilen.toNat := by
  obtain ⟨j, hj, rfl⟩ := List.mem_map.mp hi
  have := List.mem_range.mp hj
  omega

theorem nakWalk_within (hsize : 2 ≤ cilen.toNat) (h : c.Within total) :
    (nakWalk p neg opt cilen c).2.Within total := by
  rw [nakWalk]
  split
  · next hlen =>
      simp only [Bool.and_eq_true, decide_eq_true_eq] at hlen
      have h₁ : (c.look [1]).Within total := h.look (by simp; omega)
      have h₀ : ((c.look [1]).look [0]).Within total := h₁.look (by simp; omega)
      split_ifs
      · refine (h₀.look ?_).skip hlen.2
        intro i hi
        exact (lt_of_mem_bodyOffsets hi).trans_le hlen.2
      · exact h₀
      · exact h₁
  · exact h

/-- What is left when the option was there. -/
theorem nakWalk_len : (nakWalk p neg opt cilen c).2.len =
    c.len - (if neg ∧ cilen.toNat ≤ c.len ∧ p (c.pos + 1) = cilen ∧ p c.pos = opt then
      cilen.toNat else 0) := by
  rw [nakWalk]
  split
  · next hlen =>
      simp only [Bool.and_eq_true, decide_eq_true_eq] at hlen
      split
      · next hcilen =>
          split
          · next hopt => rw [if_pos ⟨hlen.1, hlen.2, hcilen, hopt⟩]; rfl
          · next hopt => rw [if_neg fun h => hopt h.2.2.2]; rfl
      · next hcilen => rw [if_neg fun h => hcilen h.2.2.1]; rfl
  · next hlen =>
      rw [if_neg fun h => hlen (by simp [h.1, h.2.1])]
      rfl

/-- An option is there if there is room for it and it starts with its type and its length. -/
theorem get_tagged_rest {α : Type} {body : Codec α} (hsize : 2 ≤ cilen.toNat)
    (hbody : body.Takes (cilen.toNat - 2)) :
    if cilen.toNat ≤ c.len ∧ p (c.pos + 1) = cilen ∧ p c.pos = opt then
      ∃ v, (Codec.tagged opt cilen body).get (c.rest p) =
        some (v, (c.rest p).drop cilen.toNat)
    else (Codec.tagged opt cilen body).get (c.rest p) = none := by
  by_cases htwo : 2 ≤ c.len
  · have hrest := hbody (p.slice (c.pos + 2) (c.len - 2))
    rw [Buf.length_slice] at hrest
    rw [Cursor.drop_rest htwo hsize, Cursor.rest_two htwo]
    simp only [Codec.tagged]
    by_cases hhead : p (c.pos + 1) = cilen ∧ p c.pos = opt
    · simp only [hhead, and_self, and_true]
      by_cases hlen : cilen.toNat ≤ c.len
      · rw [if_pos hlen]
        rwa [if_pos (by omega)] at hrest
      · rw [if_neg hlen]
        rwa [if_neg (by omega)] at hrest
    · rw [if_neg (fun h => hhead h.2), if_neg hhead]
  · rw [if_neg (by omega)]
    have hshort : (c.rest p).length < 2 := by rw [Cursor.length_rest]; omega
    cases hrest : c.rest p with
    | nil => rfl
    | cons x l =>
        cases l with
        | nil => rfl
        | cons y l =>
            rw [hrest, List.length_cons, List.length_cons] at hshort
            omega

/-- The walk sees what `nakci` sees. -/
theorem nakWalk_eq {α : Type} {body : Codec α} (hsize : 2 ≤ cilen.toNat)
    (hbody : body.Takes (cilen.toNat - 2)) :
    (nakWalk p neg opt cilen c).1 = (nakci neg (.tagged opt cilen body) (c.rest p)).1.isSome ∧
      (nakWalk p neg opt cilen c).2.rest p =
        (nakci neg (.tagged opt cilen body) (c.rest p)).2 := by
  have hget := @get_tagged_rest p opt cilen c α body hsize hbody
  unfold nakWalk nakci
  cases neg with
  | false => exact ⟨rfl, rfl⟩
  | true =>
      split_ifs at hget with hthere
      · obtain ⟨hlen, hcilen, hopt⟩ := hthere
        obtain ⟨v, hv⟩ := hget
        simp only [hv, hlen, hcilen, hopt, decide_true, Bool.and_self, if_true, Option.isSome_some,
          true_and]
        exact Cursor.rest_skip hlen
      · simp only [hget, if_true, Bool.true_and, decide_eq_true_eq]
        split_ifs with hlen hcilen hopt
        · exact absurd ⟨hlen, hcilen, hopt⟩ hthere
        all_goals exact ⟨rfl, rfl⟩

end

/-! ## `lcp_nakci` -/

/-- The options that were Nak'd, and where the walk along them ends. -/
def lcpNakWalk (p : Buf) (go : LcpOptions) (c : Cursor) : LcpOptions × Cursor :=
  let mru := nakWalk p go.negMru ciMru cilenShort c
  let asyncmap := nakWalk p go.negAsyncmap ciAsyncmap cilenLong mru.2
  let chap := nakWalk p go.negChap ciAuthtype cilenChap asyncmap.2
  let upap := nakWalk p (!go.negChap && go.negUpap) ciAuthtype cilenShort chap.2
  let lqr := nakWalk p go.negLqr ciQuality cilenLqr upap.2
  let magicnumber := nakWalk p go.negMagicnumber ciMagicnumber cilenLong lqr.2
  let pcompression := nakWalk p go.negPcompression ciPcompression cilenVoid magicnumber.2
  let accompression := nakWalk p go.negAccompression ciAccompression cilenVoid pcompression.2
  ({ LcpOptions.zero with
      negMru := mru.1
      negAsyncmap := asyncmap.1
      negChap := chap.1
      negUpap := upap.1
      negLqr := lqr.1
      negMagicnumber := magicnumber.1
      negPcompression := pcompression.1
      negAccompression := accompression.1 }, accompression.2)

/-- The last loop; `none` when it is not done after so many rounds. -/
def lcpNakLoop (p : Buf) (go no : LcpOptions) : Nat → Cursor → Option Bool × Cursor
  | 0, c => (none, c)
  | rounds + 1, c =>
      if 2 < c.len then
        let citype := p c.pos
        let cilen := p (c.pos + 1)
        let seen := c.look [0, 1]
        if c.len < cilen.toNat then (some false, seen)
        else if !lcpNakExtra go no citype cilen then (some false, seen)
        else lcpNakLoop p go no rounds (seen.skip cilen.toNat)
      else (some (decide (c.len = 0)), c)

def lcpNakAt (p : Buf) (len : Nat) (go : LcpOptions) (rounds : Nat) : Option Bool × Cursor :=
  let front := lcpNakWalk p go (.start len)
  lcpNakLoop p go front.1 rounds front.2

/-- The same on a list: the options of ours that the Nak starts with, and what is behind
them. -/
def lcpNakFront (go : LcpOptions) (p : List UInt8) : LcpOptions × List UInt8 :=
  let mru := nakci go.negMru (ciShort ciMru) p
  let asyncmap := nakci go.negAsyncmap (ciLong ciAsyncmap) mru.2
  let chap := nakci go.negChap (ciChap ciAuthtype) asyncmap.2
  let upap := nakci (!go.negChap && go.negUpap) (ciShort ciAuthtype) chap.2
  let lqr := nakci go.negLqr (ciLqr ciQuality) upap.2
  let magicnumber := nakci go.negMagicnumber (ciLong ciMagicnumber) lqr.2
  let pcompression := nakci go.negPcompression (ciVoid ciPcompression) magicnumber.2
  let accompression := nakci go.negAccompression (ciVoid ciAccompression) pcompression.2
  ({ LcpOptions.zero with
      negMru := mru.1.isSome
      negAsyncmap := asyncmap.1.isSome
      negChap := chap.1.isSome
      negUpap := upap.1.isSome
      negLqr := lqr.1.isSome
      negMagicnumber := magicnumber.1.isSome
      negPcompression := pcompression.1.isSome
      negAccompression := accompression.1.isSome }, accompression.2)

section

variable {p : Buf} {go no : LcpOptions} {c : Cursor} {total : Nat}

theorem lcpNakWalk_within (h : c.Within total) : (lcpNakWalk p go c).2.Within total := by
  rw [lcpNakWalk]
  iterate 8 refine nakWalk_within (by decide) ?_
  exact h

/-- Both walks see the same options. -/
theorem lcpNakWalk_eq :
    (lcpNakWalk p go c).1 = (lcpNakFront go (c.rest p)).1 ∧
      (lcpNakWalk p go c).2.rest p = (lcpNakFront go (c.rest p)).2 := by
  have hvoid (neg : Bool) (opt : UInt8) (c : Cursor) :=
    @nakWalk_eq p neg opt cilenVoid c _ _ (by decide) Codec.takes_void
  have hshort (neg : Bool) (opt : UInt8) (c : Cursor) :=
    @nakWalk_eq p neg opt cilenShort c _ _ (by decide) Codec.takes_short
  have hchap (neg : Bool) (opt : UInt8) (c : Cursor) :=
    @nakWalk_eq p neg opt cilenChap c _ _ (by decide) (Codec.takes_short.pair Codec.takes_octet)
  have hlong (neg : Bool) (opt : UInt8) (c : Cursor) :=
    @nakWalk_eq p neg opt cilenLong c _ _ (by decide) Codec.takes_long
  have hlqr (neg : Bool) (opt : UInt8) (c : Cursor) :=
    @nakWalk_eq p neg opt cilenLqr c _ _ (by decide) (Codec.takes_short.pair Codec.takes_long)
  simp only [lcpNakWalk, lcpNakFront, ciVoid, ciShort, ciChap, ciLong, ciLqr, hvoid, hshort, hchap,
    hlong, hlqr, and_self]

theorem lcpNakLoop_within (n : Nat) (h : c.Within total) :
    (lcpNakLoop p go no n c).2.Within total := by
  induction n generalizing c with
  | zero => exact h
  | succ n ih =>
      rw [lcpNakLoop]
      split
      · next hlen =>
          have hlook : (c.look [0, 1]).Within total := h.look (by simp; omega)
          dsimp only
          split_ifs with hfits
          · exact hlook
          · exact hlook
          · exact ih (hlook.skip (Nat.le_of_not_lt hfits))
      · exact h

theorem lcpNakLoop_eq (n : Nat) : (lcpNakLoop p go no n c).1 = lcpNakRest go no n (c.rest p) := by
  induction n generalizing c with
  | zero => rfl
  | succ n ih =>
      rw [lcpNakLoop]
      split
      · next hlen =>
          obtain ⟨b, rest, hrest⟩ := Cursor.rest_three (p := p) hlen
          have hlength := Cursor.length_rest (c := c) (p := p)
          have hskip := Cursor.rest_skip (c := c) (p := p) (n := (p (c.pos + 1)).toNat)
          rw [hrest] at hlength hskip
          rw [hrest, lcpNakRest, hlength]
          dsimp only
          by_cases hfits : c.len < (p (c.pos + 1)).toNat
          · rw [if_pos hfits, if_pos hfits]
          · rw [if_neg hfits, if_neg hfits, ← hskip (Nat.le_of_not_lt hfits)]
            cases lcpNakExtra go no (p c.pos) (p (c.pos + 1)) with
            | false => rfl
            | true => exact ih
      · next hlen =>
          have hlength := Cursor.length_rest (c := c) (p := p)
          match hrest : c.rest p with
          | [] | [_] | [_, _] =>
              rw [hrest] at hlength
              simp [lcpNakRest, ← hlength]
          | _ :: _ :: _ :: _ =>
              rw [hrest] at hlength
              simp only [List.length_cons] at hlength
              omega

/-- What was Nak'd was asked for, and what was asked for is not let pass anyway. -/
theorem lcpNakExtra_front (q : List UInt8) (citype cilen : UInt8) :
    lcpNakExtra go (lcpNakFront go q).1 citype cilen =
      lcpNakExtra go LcpOptions.zero citype cilen := by
  have hseen {α : Type} (neg : Bool) (ci : Codec α) (q : List UInt8) :
      (neg || (nakci neg ci q).1.isSome) = neg := by
    cases neg <;> rfl
  have hupap (q : List UInt8) : (go.negUpap ||
      (nakci (!go.negChap && go.negUpap) (ciShort ciAuthtype) q).1.isSome) = go.negUpap := by
    cases go.negChap <;> cases go.negUpap <;> rfl
  simp only [lcpNakExtra, lcpNakFront, LcpOptions.zero, Bool.or_assoc, hseen, hupap, Bool.or_false]

theorem lcpNakRest_front (q : List UInt8) (n : Nat) (r : List UInt8) :
    lcpNakRest go (lcpNakFront go q).1 n r = lcpNakRest go LcpOptions.zero n r := by
  induction n generalizing r with
  | zero => rfl
  | succ n ih => simp only [lcpNakRest, lcpNakExtra_front, ih]

/-- The loop comes back to where it is: behind options that it lets pass is an
authentication protocol of length 0, and we did not ask for one. -/
inductive LcpStalls (go : LcpOptions) : List UInt8 → Prop
  | here {b : UInt8} {rest : List UInt8} (hchap : go.negChap = false)
      (hupap : go.negUpap = false) : LcpStalls go (ciAuthtype :: 0 :: b :: rest)
  | there {citype cilen b : UInt8} {rest : List UInt8}
      (hpass : lcpNakExtra go LcpOptions.zero citype cilen = true) (hpos : 0 < cilen.toNat)
      (hfits : cilen.toNat ≤ (citype :: cilen :: b :: rest).length)
      (hrest : LcpStalls go ((citype :: cilen :: b :: rest).drop cilen.toNat)) :
      LcpStalls go (citype :: cilen :: b :: rest)

theorem lcpNakRest_of_stalls {q : List UInt8} (h : LcpStalls go q) (n : Nat) :
    lcpNakRest go LcpOptions.zero n q = none := by
  induction n generalizing q with
  | zero => rfl
  | succ n ih =>
      cases h with
      | @here b rest hchap hupap =>
          have hpass : lcpNakExtra go LcpOptions.zero ciAuthtype 0 = true := by
            simp [lcpNakExtra, ciMru, ciAsyncmap, ciAuthtype, hchap, hupap, LcpOptions.zero]
          rw [lcpNakRest, UInt8.toNat_zero, if_neg (Nat.not_lt_zero _), hpass]
          exact ih (.here hchap hupap)
      | there hpass hpos hfits hrest =>
          rw [lcpNakRest, if_neg (Nat.not_lt.mpr hfits), hpass]
          exact ih hrest

/-- An option that is let pass and has the length 0 is an authentication protocol. -/
theorem lcpNakExtra_zero {citype : UInt8} (h : lcpNakExtra go LcpOptions.zero citype 0 = true) :
    citype = ciAuthtype ∧ go.negChap = false ∧ go.negUpap = false := by
  have hshort : ((0 : UInt8) == cilenShort) = false := rfl
  have hlong : ((0 : UInt8) == cilenLong) = false := rfl
  have hvoid : ((0 : UInt8) == cilenVoid) = false := rfl
  have hlqr : ((0 : UInt8) == cilenLqr) = false := rfl
  simp only [lcpNakExtra, hshort, hlong, hvoid, hlqr, Bool.and_false, ite_self] at h
  split_ifs at h with _ _ hauth
  simp only [LcpOptions.zero, Bool.or_false, Bool.not_eq_true', Bool.or_eq_false_iff] at h
  exact ⟨hauth, h⟩

theorem lcpNakRest_returns {q : List UInt8} (h : ¬ LcpStalls go q) {n : Nat}
    (hn : q.length < n) : (lcpNakRest go LcpOptions.zero n q).isSome := by
  induction n generalizing q with
  | zero => omega
  | succ n ih =>
      match q with
      | [] | [_] | [_, _] => rfl
      | citype :: cilen :: b :: rest =>
          rw [lcpNakRest]
          split_ifs with hfits hpass
          · rfl
          · rfl
          · rw [Bool.not_eq_true, Bool.not_eq_false'] at hpass
            by_cases hpos : 0 < cilen.toNat
            · refine ih (fun hrest => h (.there hpass hpos (Nat.le_of_not_lt hfits) hrest)) ?_
              rw [List.length_drop]
              omega
            · obtain rfl : cilen = 0 := UInt8.toNat_inj.mp (by simpa using hpos)
              obtain ⟨rfl, hchap, hupap⟩ := lcpNakExtra_zero hpass
              exact absurd (.here hchap hupap) h

end

/-! ## `ipcp_nakci` -/

/-- What the `switch` in the last loop reads of an option that it lets pass. -/
def ipcpNakReads (citype : UInt8) : List Nat :=
  if citype = ciAddrs then bodyOffsets cilenAddrs
  else if citype = ciAddr then bodyOffsets cilenAddr
  else []

def ipcpNakLoop (p : Buf) (go : IpcpOptions) :
    Nat → IpcpNak → Cursor → Option (Option IpcpNak) × Cursor
  | 0, _, c => (none, c)
  | rounds + 1, k, c =>
      if 2 < c.len then
        let citype := p c.pos
        let cilen := p (c.pos + 1)
        let seen := c.look [0, 1]
        if c.len < cilen.toNat then (some none, seen)
        else
          match ipcpNakExtra go k citype cilen (p.slice (c.pos + 2) (cilen.toNat - 2)) with
          | none => (some none, seen)
          | some k =>
              ipcpNakLoop p go rounds k ((seen.look (ipcpNakReads citype)).skip cilen.toNat)
      else (some (if c.len = 0 then some k else none), c)

/-- The values in the options are those of `ipcpNakAddr` and `ipcpNakVj`. -/
def ipcpNakAt (p : Buf) (len : Nat) (go : IpcpOptions) (rounds : Nat) :
    Option (Option IpcpNak) × Cursor :=
  let c := Cursor.start len
  let addr := ipcpNakAddr go { no := IpcpOptions.zero, try' := go } (c.rest p)
  let c := (nakWalk p go.negAddr ciAddr (if go.oldAddrs then cilenAddrs else cilenAddr) c).2
  let vj := ipcpNakVj go addr.1 (c.rest p)
  ipcpNakLoop p go rounds vj.1 (nakVjWalk p go.negVj c)

/-- How much of the Nak is our address option, at its front. -/
def ipcpAddrTaken (p : Buf) (len : Nat) (go : IpcpOptions) : Nat :=
  let cilen := if go.oldAddrs then cilenAddrs else cilenAddr
  if go.negAddr ∧ cilen.toNat ≤ len ∧ p 1 = cilen ∧ p 0 = ciAddr then cilen.toNat else 0

section

variable {p : Buf} {go : IpcpOptions} {k : IpcpNak} {c : Cursor} {total : Nat}

theorem addrLen_size (go : IpcpOptions) :
    2 ≤ (if go.oldAddrs then cilenAddrs else cilenAddr).toNat := by
  cases go.oldAddrs <;> decide

theorem nakWalk_addr_eq :
    (nakWalk p go.negAddr ciAddr (if go.oldAddrs then cilenAddrs else cilenAddr) c).2.rest p =
      (ipcpNakAddr go k (c.rest p)).2 := by
  have hone (neg : Bool) : _ = (nakci neg (ciOneAddr ciAddr) (c.rest p)).2 :=
    (@nakWalk_eq p neg ciAddr cilenAddr c _ _ (by decide) Codec.takes_long).2
  have htwo (neg : Bool) : _ = (nakci neg (ciTwoAddrs ciAddr) (c.rest p)).2 :=
    (@nakWalk_eq p neg ciAddr cilenAddrs c _ _ (by decide)
      (Codec.takes_long.pair Codec.takes_long)).2
  have hnak : (ipcpNakAddr go k (c.rest p)).2 =
      (nakci (go.negAddr && !go.oldAddrs) (ciOneAddr ciAddr)
        (nakci (go.negAddr && go.oldAddrs) (ciTwoAddrs ciAddr) (c.rest p)).2).2 := by
    unfold ipcpNakAddr
    dsimp only
    split <;> rfl
  rw [hnak]
  cases go.oldAddrs with
  | false =>
      simp only [Bool.and_false, Bool.not_false, Bool.and_true, Bool.false_eq_true, if_false, hone]
      rfl
  | true =>
      simp only [Bool.and_true, Bool.not_true, Bool.and_false, if_true, htwo]
      rfl

theorem nakWalk_addr_len {len : Nat} :
    (nakWalk p go.negAddr ciAddr (if go.oldAddrs then cilenAddrs else cilenAddr)
        (.start len)).2.len = len - ipcpAddrTaken p len go :=
  nakWalk_len

/-- A length is read in any case. -/
theorem nakVjWalk_reads (p : Buf) (c : Cursor) : c.pos + 1 ∈ (nakVjWalk p true c).reads := by
  have hlook : c.pos + 1 ∈ (c.look [1]).reads :=
    List.mem_append_right _ (List.mem_singleton_self _)
  rw [nakVjWalk]
  simp only [if_true]
  split_ifs
  · exact List.mem_append_left _ (List.mem_append_left _ hlook)
  · exact List.mem_append_left _ hlook
  · exact hlook

theorem nakVjWalk_within (h : c.Within total) {neg : Bool} (htwo : neg = true → 2 ≤ c.len) :
    (nakVjWalk p neg c).Within total := by
  rw [nakVjWalk]
  cases neg with
  | false => exact h
  | true =>
      have htwo := htwo rfl
      have h₁ : (c.look [1]).Within total := h.look (by simp; omega)
      have h₀ : ((c.look [1]).look [0]).Within total := h₁.look (by simp; omega)
      simp only [if_true]
      split_ifs with hsize
      · exact (h₀.look fun i hi => (lt_of_mem_bodyOffsets hi).trans_le hsize.2).skip hsize.2
      · exact h₀
      · exact h₁

theorem nakVjWalk_eq :
    (nakVjWalk p go.negVj c).rest p = (ipcpNakVj go k (c.rest p)).2 := by
  have hnak : (ipcpNakVj go k (c.rest p)).2 =
      (nakci (go.negVj && (nakci go.negVj ciVj (c.rest p)).1.isNone) ciOldVj
        (nakci go.negVj ciVj (c.rest p)).2).2 := by
    unfold ipcpNakVj
    dsimp only
    split <;> rfl
  have hnew := @get_tagged_rest p ciCompresstype cilenVj c _ _ (by decide)
    (Codec.takes_short.pair (Codec.takes_octet.pair Codec.takes_octet))
  have hold := @get_tagged_rest p ciCompresstype cilenCompress c _ _ (by decide)
    Codec.takes_short
  rw [hnak, nakVjWalk]
  cases go.negVj with
  | false => rfl
  | true =>
      split_ifs at hnew with hvj
      · obtain ⟨hlen, hcilen, hopt⟩ := hvj
        obtain ⟨v, hv⟩ := hnew
        have hfront : nakci true ciVj (c.rest p) = (some v, (c.rest p).drop cilenVj.toNat) := by
          rw [nakci, ciVj, hv]
          rfl
        rw [hfront]
        simp only [if_true, hcilen, or_true, hlen, and_self, hopt]
        exact Cursor.rest_skip hlen
      · have hfront : nakci true ciVj (c.rest p) = (none, c.rest p) := by
          rw [nakci, ciVj, hnew]
          rfl
        rw [hfront]
        show _ = (nakci true ciOldVj (c.rest p)).2
        rw [nakci, ciOldVj]
        split_ifs at hold with hcompress
        · obtain ⟨hlen, hcilen, hopt⟩ := hcompress
          obtain ⟨v, hv⟩ := hold
          simp only [hv, if_true, hcilen, true_or, hlen, and_self, hopt]
          exact Cursor.rest_skip hlen
        · simp only [hold, if_true]
          split
          · next hsize =>
              rw [if_neg]
              · rfl
              · intro hopt
                rcases hsize with ⟨hcilen | hcilen, hlen⟩
                · exact hcompress ⟨hcilen ▸ hlen, hcilen, hopt⟩
                · exact hvj ⟨hcilen ▸ hlen, hcilen, hopt⟩
          · rfl

/-- Every option that is let pass has one of the lengths it can have, so all that is read of
it is in it. -/
theorem ipcpNakExtra_passes {k' : IpcpNak} {citype cilen : UInt8} {body : List UInt8}
    (h : ipcpNakExtra go k citype cilen body = some k') :
    4 ≤ cilen.toNat ∧ ∀ i ∈ ipcpNakReads citype, i < cilen.toNat := by
  rw [ipcpNakExtra] at h
  split_ifs at h with hvj hbad haddrs hbad haddr hbad
  · rw [hvj]
    simp only [Bool.or_eq_true, Bool.and_eq_true, bne_iff_ne, not_or, not_and, not_not] at hbad
    refine ⟨?_, fun i hi => absurd hi List.not_mem_nil⟩
    by_cases hsix : cilen = cilenVj
    · rw [hsix]
      decide
    · rw [hbad.2 hsix]
      decide
  · simp only [Bool.or_eq_true, bne_iff_ne, not_or, not_not] at hbad
    rw [haddrs, hbad.2]
    exact ⟨by decide, fun i hi => lt_of_mem_bodyOffsets hi⟩
  · simp only [Bool.or_eq_true, bne_iff_ne, not_or, not_not] at hbad
    rw [haddr, hbad.2]
    exact ⟨by decide, fun i hi => lt_of_mem_bodyOffsets hi⟩

theorem ipcpNakLoop_within (n : Nat) (h : c.Within total) :
    (ipcpNakLoop p go n k c).2.Within total := by
  induction n generalizing c k with
  | zero => exact h
  | succ n ih =>
      rw [ipcpNakLoop]
      split
      · next hlen =>
          have hlook : (c.look [0, 1]).Within total := h.look (by simp; omega)
          dsimp only
          split
          · exact hlook
          · next hfits =>
              split
              · exact hlook
              · next hpass =>
                  obtain ⟨-, hreads⟩ := ipcpNakExtra_passes hpass
                  have hfits := Nat.le_of_not_lt hfits
                  exact ih ((hlook.look fun i hi => (hreads i hi).trans_le hfits).skip hfits)
      · exact h

theorem ipcpNakRest_short {q : List UInt8} (h : q.length ≤ 2) (m : Nat) :
    ipcpNakRest go m k q = if q = [] then some k else none := by
  match q, h with
  | [], _ | [_], _ | [_, _], _ => cases m <;> rfl

/-- Every round gets nearer to the end. -/
theorem ipcpNakLoop_eq {n m : Nat} (hn : c.len < n) (hm : c.len ≤ m) :
    (ipcpNakLoop p go n k c).1 = some (ipcpNakRest go m k (c.rest p)) := by
  induction n generalizing m c k with
  | zero => omega
  | succ n ih =>
      have hlength := Cursor.length_rest (c := c) (p := p)
      rw [ipcpNakLoop]
      split
      · next hlen =>
          obtain ⟨m, rfl⟩ : ∃ i, m = i + 1 := ⟨m - 1, by omega⟩
          obtain ⟨b, rest, hrest⟩ := Cursor.rest_three (p := p) hlen
          have hbody : b :: rest = p.slice (c.pos + 2) (c.len - 2) := by
            have htwo := Cursor.rest_two (p := p) hlen.le
            rw [hrest] at htwo
            injection htwo with _ htwo
            injection htwo
          have hlength : (b :: rest).length + 2 = c.len := by
            rw [hbody, Buf.length_slice]
            omega
          rw [hrest, ipcpNakRest]
          dsimp only
          rw [hlength]
          by_cases hfits : c.len < (p (c.pos + 1)).toNat
          · rw [if_pos hfits, if_pos hfits]
          · have hle := Nat.le_of_not_lt hfits
            rw [if_neg hfits, if_neg hfits, hbody, Buf.take_slice p _ (Nat.sub_le_sub_right hle 2)]
            cases hpass : ipcpNakExtra go k (p c.pos) (p (c.pos + 1))
                (p.slice (c.pos + 2) ((p (c.pos + 1)).toNat - 2)) with
            | none => rfl
            | some k =>
                obtain ⟨hfour, -⟩ := ipcpNakExtra_passes hpass
                rw [← Cursor.drop_rest hlen.le (by omega), ← Cursor.rest_skip hle]
                refine ih ?_ ?_
                · show c.len - (p (c.pos + 1)).toNat < n
                  omega
                · show c.len - (p (c.pos + 1)).toNat ≤ m
                  omega
      · next hlen =>
          rw [ipcpNakRest_short (by rw [hlength]; omega)]
          simp only [← List.length_eq_zero_iff, hlength]

end

/-! ## What the walks come to -/

theorem lcpNakAt_front (p : Buf) (len : Nat) (go : LcpOptions) (n : Nat) :
    (lcpNakAt p len go n).1 =
      lcpNakRest go (lcpNakFront go (p.take len)).1 n (lcpNakFront go (p.take len)).2 := by
  obtain ⟨hno, hrest⟩ := @lcpNakWalk_eq p go (.start len)
  rw [Cursor.rest_start] at hno hrest
  rw [lcpNakAt, lcpNakLoop_eq, hno, hrest]

theorem lcpNakci_fst (magic : Nat → UInt32) (opened : Bool) (o : Lcp) (p : List UInt8) :
    (lcpNakci magic opened o p).1 = lcpNakRest o.got (lcpNakFront o.got p).1
      ((lcpNakFront o.got p).2.length + 1) (lcpNakFront o.got p).2 := by
  unfold lcpNakci
  dsimp only
  split <;> exact Eq.symm (by assumption)

/-- The walk comes to the result of `lcp_nakci`. -/
theorem lcpNakAt_eq (magic : Nat → UInt32) (opened : Bool) (o : Lcp) (p : Buf) (len : Nat) :
    (lcpNakAt p len o.got ((lcpNakFront o.got (p.take len)).2.length + 1)).1 =
      (lcpNakci magic opened o (p.take len)).1 := by
  rw [lcpNakAt_front, lcpNakci_fst]

/-- The walk comes to the result of `ipcp_nakci`. -/
theorem ipcpNakAt_eq (opened : Bool) (o : Ipcp) (p : Buf) (len : Nat) :
    ∃ n k, (ipcpNakAt p len o.got n).1 = some k ∧
      ipcpNakci opened o (p.take len) =
        match k with
        | none => (false, o)
        | some k => (true, if opened then o else { o with got := k.try' }) := by
  let addr := ipcpNakAddr o.got { no := IpcpOptions.zero, try' := o.got } (p.take len)
  let vj := ipcpNakVj o.got addr.1 addr.2
  refine ⟨vj.2.length + 1, ipcpNakRest o.got vj.2.length vj.1 vj.2, ?_, rfl⟩
  have haddr := @nakWalk_addr_eq p o.got { no := IpcpOptions.zero, try' := o.got } (.start len)
  rw [Cursor.rest_start] at haddr
  have hvj := @nakVjWalk_eq p o.got addr.1 (nakWalk p o.got.negAddr ciAddr
    (if o.got.oldAddrs then cilenAddrs else cilenAddr) (.start len)).2
  rw [haddr] at hvj
  have hlen := congrArg List.length hvj
  rw [Cursor.length_rest] at hlen
  rw [ipcpNakAt, Cursor.rest_start, haddr,
    ipcpNakLoop_eq (hlen.trans_lt (Nat.lt_succ_self _)) hlen.le, hvj]

theorem lcpNak_finishes_iff (p : Buf) (len : Nat) (go : LcpOptions) :
    ((∃ n, (lcpNakAt p len go n).1.isSome) ∧
        ∀ n, ∀ i ∈ (lcpNakAt p len go n).2.reads, i < len) ↔
      ¬ LcpStalls go (lcpNakFront go (p.take len)).2 := by
  constructor
  · rintro ⟨⟨n, hn⟩, -⟩ hstalls
    rw [lcpNakAt_front, lcpNakRest_front, lcpNakRest_of_stalls hstalls] at hn
    cases hn
  · intro hmoves
    refine ⟨⟨(lcpNakFront go (p.take len)).2.length + 1, ?_⟩, ?_⟩
    · rw [lcpNakAt_front, lcpNakRest_front]
      exact lcpNakRest_returns hmoves (Nat.lt_succ_self _)
    · intro n
      exact (lcpNakLoop_within n (lcpNakWalk_within .start)).inside

theorem ipcpNak_finishes_iff (p : Buf) (len : Nat) (go : IpcpOptions) :
    ((∃ n, (ipcpNakAt p len go n).1.isSome) ∧
        ∀ n, ∀ i ∈ (ipcpNakAt p len go n).2.reads, i < len) ↔
      (go.negVj = true → ipcpAddrTaken p len go + 2 ≤ len) := by
  have hstart : (nakWalk p go.negAddr ciAddr (if go.oldAddrs then cilenAddrs else cilenAddr)
      (.start len)).2.Within len := nakWalk_within (addrLen_size go) .start
  have hleft := @nakWalk_addr_len p go len
  have hend := hstart.extent
  unfold ipcpNakAt
  dsimp only
  generalize (nakWalk p go.negAddr ciAddr (if go.oldAddrs then cilenAddrs else cilenAddr)
    (.start len)).2 = c at *
  constructor
  · rintro ⟨-, hreads⟩ hvj
    have := hreads 0 (c.pos + 1) (hvj ▸ nakVjWalk_reads p c)
    omega
  · intro htwo
    refine ⟨⟨(nakVjWalk p go.negVj c).len + 1, ?_⟩, ?_⟩
    · rw [ipcpNakLoop_eq (Nat.lt_succ_self _) le_rfl]
      rfl
    · intro n
      have hwithin : (nakVjWalk p go.negVj c).Within len :=
        nakVjWalk_within hstart fun hvj => by
          have := htwo hvj
          omega
      exact (ipcpNakLoop_within n hwithin).inside

/-- Reading a Nak comes to an end, and stays inside of the Nak, if and only if, in LCP, the
loop does not come to an authentication protocol of length 0 that we did not ask for and,
in IPCP, there is room for a type and a length where our compression option would be. -/
theorem nak_finishes_iff (p : Buf) (len : Nat) :
    (∀ go : LcpOptions,
      ((∃ n, (lcpNakAt p len go n).1.isSome) ∧
          ∀ n, ∀ i ∈ (lcpNakAt p len go n).2.reads, i < len) ↔
        ¬ LcpStalls go (lcpNakFront go (p.take len)).2) ∧
    ∀ go : IpcpOptions,
      ((∃ n, (ipcpNakAt p len go n).1.isSome) ∧
          ∀ n, ∀ i ∈ (ipcpNakAt p len go n).2.reads, i < len) ↔
        (go.negVj = true → ipcpAddrTaken p len go + 2 ≤ len) :=
  ⟨lcpNak_finishes_iff p len, ipcpNak_finishes_iff p len⟩

/-- With the options as they are after a reset, three octets make `lcp_nakci` go round for
ever, and the usual Nak, of nothing but our address, makes `ipcp_nakci` read behind its
end. -/
theorem nak_unfinished :
    (¬ ∃ n, (lcpNakAt (Buf.of [3, 0, 0]) 3 (lcpResetci (fun _ => 7) lcpInit).got n).1.isSome) ∧
    ¬ ∀ n, ∀ i ∈ (ipcpNakAt (Buf.of [3, 6, 10, 0, 0, 1]) 6 (ipcpResetci ipcpInit).got n).2.reads,
      i < 6 := by
  constructor
  · rintro ⟨n, hn⟩
    have hstalls : LcpStalls (lcpResetci (fun _ => 7) lcpInit).got
        (lcpNakFront (lcpResetci (fun _ => 7) lcpInit).got ((Buf.of [3, 0, 0]).take 3)).2 :=
      .here rfl rfl
    rw [lcpNakAt_front, lcpNakRest_front, lcpNakRest_of_stalls hstalls] at hn
    cases hn
  · intro h
    exact absurd (h 0 7 (by decide)) (by decide)

end VxWorks.Ppp
