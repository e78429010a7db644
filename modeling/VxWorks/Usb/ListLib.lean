import Mathlib.Data.List.Perm.Subperm
import Mathlib.Data.UInt
import VxWorks.Lib.Links
import VxWorks.Lib.Run

/-!
# Linked lists (usbListLib.c)

`LINK.linkFwd` and `LIST_HEAD.pLink` are the first fields of their structures, and the code
takes the address of either for a `pLINK`. So there is one map of forward fields here, from
the address of a link or of a head. A link names the structure it is in.

`DEBUG_LIST` is defined: before it links anything `usbListLink` walks the list, and asserts
that the structure is not on it. It finds the links of the structures that are on the list
at the offset of the new link in the new structure. So a list is a list of structures, each
of them once and each of them linked at the same offset; `Aligned` says so, and with it
every run of calls leaves the lists that insertions and deletions would.
-/

namespace VxWorks.Usb

open VxWorks.Lib

abbrev LinkAddr := BitVec 32

structure LinkMem where
  linkFwd : LinkAddr → LinkAddr
  linkBack : LinkAddr → LinkAddr
  pStruct : LinkAddr → LinkAddr

def linkHead : UInt16 := 0

def linkTail : UInt16 := 1

/-- More steps than there are links to walk. -/
def linkCells : Nat := 2 ^ 32

def LinkMem.setFwd (m : LinkMem) (p v : LinkAddr) : LinkMem :=
  { m with linkFwd := Function.update m.linkFwd p v }

def LinkMem.setBack (m : LinkMem) (p v : LinkAddr) : LinkMem :=
  { m with linkBack := Function.update m.linkBack p v }

def LinkMem.setStruct (m : LinkMem) (p v : LinkAddr) : LinkMem :=
  { m with pStruct := Function.update m.pStruct p v }

/-- `usbListFirst`. -/
def usbListFirst (m : LinkMem) (pListHead : LinkAddr) : LinkAddr :=
  if pListHead = 0 ∨ m.linkFwd pListHead = 0 then 0 else m.pStruct (m.linkFwd pListHead)

/-- `usbListNext`. -/
def usbListNext (m : LinkMem) (pLink : LinkAddr) : LinkAddr :=
  if pLink = 0 ∨ m.linkFwd pLink = 0 then 0 else m.pStruct (m.linkFwd pLink)

/-- The structures from `pElement` on, each with its link at the offset `off`. -/
def listWalk (m : LinkMem) (off : LinkAddr) : Nat → LinkAddr → Option (List LinkAddr)
  | 0, _ => none
  | n + 1, pElement =>
    if pElement = 0 then some []
    else (listWalk m off n (usbListNext m (pElement + off))).map (pElement :: ·)

/-- The walk of `usbListLink` before it links. -/
def debugWalk (m : LinkMem) (off pStruct : LinkAddr) : Nat → LinkAddr → Option Unit
  | 0, _ => none
  | n + 1, pElement =>
    if pElement = 0 then some ()
    else if pElement = pStruct then none
    else debugWalk m off pStruct n (usbListNext m (pElement + off))

/-- `ppTail` of `usbListLink`, the cell that ends the list. -/
def ppTail (m : LinkMem) : Nat → LinkAddr → Option LinkAddr
  | 0, _ => none
  | n + 1, p => if m.linkFwd p = 0 then some p else ppTail m n (m.linkFwd p)

/-- `usbListLink`: `none` when the assertion fails or a walk does not end. -/
def usbListLink (m : LinkMem) (pHead pStruct pLink : LinkAddr) (flag : UInt16) :
    Option LinkMem := do
  debugWalk m (pLink - pStruct) pStruct linkCells (usbListFirst m pHead)
  let m := m.setStruct pLink pStruct
  if flag = linkHead then
    let m := (m.setFwd pLink (m.linkFwd pHead)).setBack pLink pHead
    let m := if m.linkFwd pHead ≠ 0 then m.setBack (m.linkFwd pHead) pLink else m
    some (m.setFwd pHead pLink)
  else
    let tail ← ppTail m linkCells pHead
    let m := (m.setFwd pLink 0).setBack pLink tail
    some (m.setFwd tail pLink)

/-- `usbListUnlink`. -/
def usbListUnlink (m : LinkMem) (pLink : LinkAddr) : LinkMem :=
  let m := if m.linkBack pLink ≠ 0 then m.setFwd (m.linkBack pLink) (m.linkFwd pLink) else m
  let m := if m.linkFwd pLink ≠ 0 then m.setBack (m.linkFwd pLink) (m.linkBack pLink) else m
  (m.setFwd pLink 0).setBack pLink 0

/-! ## What the lists are -/

/-- A link on a list, with the structure it is in. -/
structure LinkEntry where
  link : LinkAddr
  pStruct : LinkAddr
deriving DecidableEq, Repr

inductive ListCall where
  | link (pHead pStruct pLink : LinkAddr) (flag : UInt16)
  | unlink (pLink : LinkAddr)
deriving DecidableEq, Repr

def ListCall.call (m : LinkMem) : ListCall → Option LinkMem
  | .link pHead pStruct pLink flag => usbListLink m pHead pStruct pLink flag
  | .unlink pLink => some (usbListUnlink m pLink)

/-- The lists as sequences: an entry comes in at either end, and goes from wherever it is. -/
def ListCall.edit (lists : LinkAddr → List LinkEntry) : ListCall → LinkAddr → List LinkEntry
  | .link pHead pStruct pLink flag =>
    Function.update lists pHead (if flag = linkHead then ⟨pLink, pStruct⟩ :: lists pHead
      else lists pHead ++ [⟨pLink, pStruct⟩])
  | .unlink pLink => fun h => (lists h).filter (·.link ≠ pLink)

/-- The memory, for as long as every call has returned, and what the lists are to be. -/
structure ListRun where
  mem : Option LinkMem
  lists : LinkAddr → List LinkEntry

def ListRun.start (m : LinkMem) : ListRun := ⟨some m, fun _ => []⟩

def ListRun.step (s : ListRun) (c : ListCall) : ListRun :=
  ⟨s.mem.bind c.call, c.edit s.lists⟩

def OnList (heads : LinkAddr → Prop) (lists : LinkAddr → List LinkEntry) (pLink : LinkAddr) :
    Prop :=
  ∃ h, heads h ∧ pLink ∈ (lists h).map LinkEntry.link

/-- A link is linked while it is on no list, and unlinked when it is on one or zeroed. -/
def Admitted (heads : LinkAddr → Prop) (s : ListRun) : ListCall → Prop
  | .link pHead _ pLink _ =>
    heads pHead ∧ pLink ≠ 0 ∧ ¬ heads pLink ∧ ¬ OnList heads s.lists pLink
  | .unlink pLink =>
    OnList heads s.lists pLink ∨
      ∀ m, s.mem = some m → m.linkFwd pLink = 0 ∧ m.linkBack pLink = 0

/-- A structure is linked at the offset at which those on the list are. -/
def Aligned (s : ListRun) : ListCall → Prop
  | .link pHead pStruct pLink _ =>
    pStruct ≠ 0 ∧ ∀ e ∈ s.lists pHead, e.pStruct + (pLink - pStruct) = e.link
  | .unlink _ => True

instance decidableOnList (hs : List LinkAddr) (lists : LinkAddr → List LinkEntry)
    (pLink : LinkAddr) : Decidable (OnList (· ∈ hs) lists pLink) :=
  decidable_of_iff (hs.any (fun h => ((lists h).map LinkEntry.link).contains pLink))
    (by simp [OnList])

instance decidableAdmitted (hs : List LinkAddr) (s : ListRun) (c : ListCall) :
    Decidable (Admitted (· ∈ hs) s c) :=
  match c with
  | .link pHead _ pLink _ => inferInstanceAs (Decidable (pHead ∈ hs ∧ pLink ≠ 0 ∧ pLink ∉ hs ∧
      ¬ OnList (· ∈ hs) s.lists pLink))
  | .unlink pLink => decidable_of_iff (OnList (· ∈ hs) s.lists pLink ∨
      s.mem.all (fun m => m.linkFwd pLink == 0 && m.linkBack pLink == 0))
    (by cases h : s.mem <;> simp [Admitted, h])

instance decidableAligned (s : ListRun) (c : ListCall) : Decidable (Aligned s c) :=
  match c with
  | .link pHead pStruct pLink _ => inferInstanceAs (Decidable (pStruct ≠ 0 ∧
      ∀ e ∈ s.lists pHead, e.pStruct + (pLink - pStruct) = e.link))
  | .unlink _ => inferInstanceAs (Decidable True)

/-- The calls have returned. Every list is walked from end to end as the sequence it is to
be, and the back fields lead to the cells that lead to the links. -/
def Faithful (heads : LinkAddr → Prop) (s : ListRun) : Prop :=
  ∃ m, s.mem = some m ∧ ∀ h, heads h →
    Linked m.linkFwd m.linkBack h ((s.lists h).map LinkEntry.link) ∧
    ∃ off, (∀ e ∈ s.lists h, e.pStruct + off = e.link) ∧
      listWalk m off linkCells (usbListFirst m h) = some ((s.lists h).map LinkEntry.pStruct)

/-! ## Walks -/

/-- What the memory holds from the cell `p` on. -/
structure Listed (m : LinkMem) (p : LinkAddr) (es : List LinkEntry) : Prop where
  cell : p ≠ 0
  linked : Linked m.linkFwd m.linkBack p (es.map LinkEntry.link)
  ends : m.linkFwd ((es.map LinkEntry.link).getLastD p) = 0
  entry : ∀ e ∈ es, e.link ≠ 0 ∧ e.pStruct ≠ 0 ∧ m.pStruct e.link = e.pStruct

theorem Listed.tail {m : LinkMem} {p : LinkAddr} {e : LinkEntry} {es : List LinkEntry}
    (h : Listed m p (e :: es)) : Listed m e.link es where
  cell := (h.entry e List.mem_cons_self).1
  linked := h.linked.2.2
  ends := by
    have hend := h.ends
    rw [List.map_cons, List.getLastD_cons] at hend
    exact hend
  entry e' he' := h.entry e' (List.mem_cons_of_mem e he')

theorem Listed.first {m : LinkMem} {p : LinkAddr} {es : List LinkEntry} (h : Listed m p es) :
    usbListFirst m p = (es.map LinkEntry.pStruct).headD 0 := by
  cases es with
  | nil => exact if_pos (.inr h.ends)
  | cons e es =>
      obtain ⟨hlink, -, hstruct⟩ := h.entry e List.mem_cons_self
      have hfwd : m.linkFwd p = e.link := h.linked.1
      rw [usbListFirst, hfwd, if_neg (not_or.mpr ⟨h.cell, hlink⟩), hstruct]
      rfl

theorem listWalk_of_listed {m : LinkMem} {off p : LinkAddr} {es : List LinkEntry}
    (h : Listed m p es) (hoff : ∀ e ∈ es, e.pStruct + off = e.link) {n : Nat}
    (hn : es.length < n) :
    listWalk m off n (usbListFirst m p) = some (es.map LinkEntry.pStruct) := by
  induction es generalizing p n with
  | nil =>
      obtain ⟨n, rfl⟩ := Nat.exists_eq_add_of_lt hn
      rw [h.first]
      rfl
  | cons e es ih =>
      obtain ⟨n, rfl⟩ : ∃ k, n = k + 1 := ⟨n - 1, by omega⟩
      have hnext : usbListNext m (e.pStruct + off) = usbListFirst m e.link := by
        rw [hoff e List.mem_cons_self]
        rfl
      rw [h.first, List.map_cons, List.headD_cons, listWalk,
        if_neg (h.entry e List.mem_cons_self).2.1, hnext,
        ih h.tail (fun e' he' => hoff e' (List.mem_cons_of_mem e he')) (Nat.lt_of_succ_lt_succ hn)]
      rfl

/-- The assertion is about the structures a walk meets. -/
theorem debugWalk_eq (m : LinkMem) (off pStruct : LinkAddr) (n : Nat) (pElement : LinkAddr) :
    debugWalk m off pStruct n pElement =
      (listWalk m off n pElement).bind fun l => if pStruct ∈ l then none else some () := by
  induction n generalizing pElement with
  | zero => rfl
  | succ n ih =>
      rw [debugWalk, listWalk]
      split
      · rfl
      · rw [ih]
        cases listWalk m off n (usbListNext m (pElement + off)) with
        | none => simp
        | some l =>
            split
            · next heq => simp [heq]
            · next hne => simp [Ne.symm hne]

theorem ppTail_of_listed {m : LinkMem} {p : LinkAddr} {es : List LinkEntry} (h : Listed m p es)
    {n : Nat} (hn : es.length < n) :
    ppTail m n p = some ((es.map LinkEntry.link).getLastD p) := by
  induction es generalizing p n with
  | nil =>
      obtain ⟨n, rfl⟩ : ∃ k, n = k + 1 := ⟨n - 1, by omega⟩
      exact if_pos h.ends
  | cons e es ih =>
      obtain ⟨n, rfl⟩ : ∃ k, n = k + 1 := ⟨n - 1, by omega⟩
      have hfwd : m.linkFwd p = e.link := h.linked.1
      rw [ppTail, hfwd, if_neg (h.entry e List.mem_cons_self).1,
        ih h.tail (Nat.lt_of_succ_lt_succ hn), List.map_cons, List.getLastD_cons]

theorem ppTail_setStruct (m : LinkMem) (p v : LinkAddr) (n : Nat) (q : LinkAddr) :
    ppTail (m.setStruct p v) n q = ppTail m n q := by
  induction n generalizing q with
  | zero => rfl
  | succ n ih =>
      rw [ppTail, ppTail, ih]
      rfl

/-- There are not as many links on a list as there are addresses. -/
theorem length_lt_linkCells {l : List LinkAddr} (hnodup : l.Nodup) (hnull : 0 ∉ l) :
    l.length < linkCells := by
  have hall : (0 :: l).map BitVec.toNat ⊆ List.range linkCells := by
    intro x hx
    obtain ⟨y, -, rfl⟩ := List.mem_map.mp hx
    exact List.mem_range.mpr y.isLt
  have hcons : ((0 :: l).map BitVec.toNat).Nodup :=
    (List.nodup_cons.mpr ⟨hnull, hnodup⟩).map fun x y hxy => BitVec.eq_of_toNat_eq hxy
  have hle := (List.subperm_of_subset hcons hall).length_le
  rw [List.length_map, List.length_range] at hle
  exact hle

/-! ## Runs -/

/-- The invariant of a run of calls. -/
structure ListInv (heads : LinkAddr → Prop) (m : LinkMem) (lists : LinkAddr → List LinkEntry) :
    Prop where
  chains : Chains heads 0 m.linkFwd m.linkBack fun h => (lists h).map LinkEntry.link
  entry : ∀ h, heads h → ∀ e ∈ lists h, e.pStruct ≠ 0 ∧ m.pStruct e.link = e.pStruct
  offset : ∀ h, heads h → ∃ off, ∀ e ∈ lists h, e.pStruct + off = e.link

section

variable {heads : LinkAddr → Prop} {m : LinkMem} {lists : LinkAddr → List LinkEntry}

theorem ListInv.listed (hi : ListInv heads m lists) {h : LinkAddr} (hh : heads h) :
    Listed m h (lists h) where
  cell := fun heq => hi.chains.head (heq ▸ hh)
  linked := hi.chains.linked h hh
  ends := hi.chains.ends h hh
  entry e he := ⟨(hi.chains.cell h hh e.link (List.mem_map_of_mem he)).1, hi.entry h hh e he⟩

theorem ListInv.length_lt (hi : ListInv heads m lists) {h : LinkAddr} (hh : heads h) :
    (lists h).length < linkCells := by
  have hlt := length_lt_linkCells (hi.chains.nodup h hh)
    fun hmem => (hi.chains.cell h hh 0 hmem).1 rfl
  rw [List.length_map] at hlt
  exact hlt

theorem ListInv.faithful (hi : ListInv heads m lists) : Faithful heads ⟨some m, lists⟩ := by
  refine ⟨m, rfl, fun h hh => ⟨hi.chains.linked h hh, ?_⟩⟩
  obtain ⟨off, hoff⟩ := hi.offset h hh
  exact ⟨off, hoff, listWalk_of_listed (hi.listed hh) hoff (hi.length_lt hh)⟩

/-- The walk before a link meets no structure twice. -/
theorem ListInv.walk_passes (hi : ListInv heads m lists) {pHead pStruct pLink : LinkAddr}
    (hh : heads pHead) (hfree : ¬ OnList heads lists pLink)
    (hoff : ∀ e ∈ lists pHead, e.pStruct + (pLink - pStruct) = e.link) :
    debugWalk m (pLink - pStruct) pStruct linkCells (usbListFirst m pHead) = some () := by
  have hout : pStruct ∉ (lists pHead).map LinkEntry.pStruct := by
    intro hmem
    obtain ⟨e, he, heq⟩ := List.mem_map.mp hmem
    have hlink := hoff e he
    rw [heq, add_sub_cancel] at hlink
    exact hfree ⟨pHead, hh, List.mem_map.mpr ⟨e, he, hlink.symm⟩⟩
  rw [debugWalk_eq, listWalk_of_listed (hi.listed hh) hoff (hi.length_lt hh), Option.bind_some,
    if_neg hout]

/-- The memory with a link behind the cell `c`. -/
def LinkMem.insertAfter (m : LinkMem) (c pLink pStruct : LinkAddr) : LinkMem where
  linkFwd := insertFwd m.linkFwd c pLink
  linkBack := insertBack 0 m.linkFwd m.linkBack c pLink
  pStruct := Function.update m.pStruct pLink pStruct

/-- Either end is behind a cell: the head, or the one the tail loop stops at. -/
theorem ListInv.link_eq (hi : ListInv heads m lists) {pHead pStruct pLink : LinkAddr}
    (hh : heads pHead) (hlink : ¬ heads pLink) (hfree : ¬ OnList heads lists pLink)
    (hoff : ∀ e ∈ lists pHead, e.pStruct + (pLink - pStruct) = e.link) (flag : UInt16) :
    ∃ xs ys, lists pHead = xs ++ ys ∧
      ListCall.edit lists (.link pHead pStruct pLink flag) =
        Function.update lists pHead (xs ++ ⟨pLink, pStruct⟩ :: ys) ∧
      usbListLink m pHead pStruct pLink flag =
        some (m.insertAfter ((xs.map LinkEntry.link).getLastD pHead) pLink pStruct) := by
  have hwalk := hi.walk_passes hh hfree hoff
  by_cases hflag : flag = linkHead
  · refine ⟨[], lists pHead, rfl, ?_, ?_⟩
    · rw [ListCall.edit, if_pos hflag]
      rfl
    · have hne : pHead ≠ pLink := fun heq => hlink (heq ▸ hh)
      have hfwd : Function.update m.linkFwd pLink (m.linkFwd pHead) pHead = m.linkFwd pHead :=
        Function.update_of_ne hne _ _
      rw [usbListLink, hwalk, if_pos hflag]
      simp only [LinkMem.setFwd, LinkMem.setBack, LinkMem.setStruct, hfwd, Option.bind_eq_bind,
        Option.bind_some, LinkMem.insertAfter, insertFwd, insertBack, List.map_nil,
        List.getLastD_nil]
      split
      · rfl
      · rfl
  · refine ⟨lists pHead, [], (List.append_nil _).symm, ?_, ?_⟩
    · rw [ListCall.edit, if_neg hflag]
    · have htail : ppTail (m.setStruct pLink pStruct) linkCells pHead =
          some (((lists pHead).map LinkEntry.link).getLastD pHead) := by
        rw [ppTail_setStruct, ppTail_of_listed (hi.listed hh) (hi.length_lt hh)]
      have hend := hi.chains.ends pHead hh
      rw [usbListLink, hwalk, if_neg hflag]
      simp only [Option.bind_eq_bind, Option.bind_some, htail]
      simp only [LinkMem.setFwd, LinkMem.setBack, LinkMem.setStruct, LinkMem.insertAfter,
        insertFwd, insertBack, hend, ne_eq, not_true_eq_false, if_false]

theorem ListInv.step_link (hi : ListInv heads m lists) {pHead pStruct pLink : LinkAddr}
    {flag : UInt16} (hadm : Admitted heads ⟨some m, lists⟩ (.link pHead pStruct pLink flag))
    (halign : Aligned ⟨some m, lists⟩ (.link pHead pStruct pLink flag)) :
    ∃ m', usbListLink m pHead pStruct pLink flag = some m' ∧
      ListInv heads m' (ListCall.edit lists (.link pHead pStruct pLink flag)) := by
  obtain ⟨hh, hnull, hlink, hfree⟩ := hadm
  obtain ⟨hstruct, hoff⟩ := halign
  obtain ⟨xs, ys, hlist, hedit, hcall⟩ := hi.link_eq hh hlink hfree hoff flag
  have hmem : ∀ e, e ∈ xs ++ ⟨pLink, pStruct⟩ :: ys ↔ e = ⟨pLink, pStruct⟩ ∨ e ∈ lists pHead := by
    intro e
    rw [hlist]
    exact List.perm_middle.mem_iff.trans List.mem_cons
  refine ⟨_, hcall, ?_, ?_, ?_⟩
  · have hmap : (lists pHead).map LinkEntry.link =
        xs.map LinkEntry.link ++ ys.map LinkEntry.link := by
      rw [hlist, List.map_append]
    have hins := hi.chains.insert hh hmap hnull hlink fun h hh' hmem => hfree ⟨h, hh', hmem⟩
    have hsame : (fun h => (ListCall.edit lists (.link pHead pStruct pLink flag) h).map
        LinkEntry.link) = Function.update (fun h => (lists h).map LinkEntry.link) pHead
          (xs.map LinkEntry.link ++ pLink :: ys.map LinkEntry.link) := by
      funext h
      rw [hedit]
      rcases eq_or_ne h pHead with rfl | hne
      · rw [Function.update_self, Function.update_self, List.map_append, List.map_cons]
      · rw [Function.update_of_ne hne, Function.update_of_ne hne]
    rw [hsame]
    exact hins
  · intro h hh' e he
    have hkeep : e ∈ lists h → e.pStruct ≠ 0 ∧
        Function.update m.pStruct pLink pStruct e.link = e.pStruct := by
      intro he'
      have hne : e.link ≠ pLink := fun heq =>
        hfree ⟨h, hh', heq ▸ List.mem_map_of_mem he'⟩
      rw [Function.update_of_ne hne]
      exact hi.entry h hh' e he'
    rw [hedit] at he
    rcases eq_or_ne h pHead with rfl | hne
    · rw [Function.update_self, hmem] at he
      rcases he with rfl | he
      · exact ⟨hstruct, Function.update_self _ _ _⟩
      · exact hkeep he
    · rw [Function.update_of_ne hne] at he
      exact hkeep he
  · intro h hh'
    rw [hedit]
    rcases eq_or_ne h pHead with rfl | hne
    · refine ⟨pLink - pStruct, ?_⟩
      intro e he
      rw [Function.update_self, hmem] at he
      rcases he with rfl | he
      · exact add_sub_cancel pStruct pLink
      · exact hoff e he
    · rw [Function.update_of_ne hne]
      exact hi.offset h hh'

/-- A zeroed link is left as it is, and so is everything else. -/
theorem usbListUnlink_zeroed {pLink : LinkAddr} (hfwd : m.linkFwd pLink = 0)
    (hback : m.linkBack pLink = 0) : usbListUnlink m pLink = m := by
  have hf : Function.update m.linkFwd pLink 0 = m.linkFwd := by
    rw [← hfwd, Function.update_eq_self]
  have hb : Function.update m.linkBack pLink 0 = m.linkBack := by
    rw [← hback, Function.update_eq_self]
  simp only [usbListUnlink, hback, hfwd, ne_eq, not_true_eq_false, if_false, LinkMem.setFwd,
    LinkMem.setBack, hf, hb]

/-- The forward field of the link itself is not written before it is read. -/
theorem usbListUnlink_eq (m : LinkMem) (pLink : LinkAddr) :
    usbListUnlink m pLink =
      ⟨unlinkFwd 0 m.linkFwd m.linkBack pLink, unlinkBack 0 m.linkFwd m.linkBack pLink,
        m.pStruct⟩ := by
  have hread : Function.update m.linkFwd (m.linkBack pLink) (m.linkFwd pLink) pLink =
      m.linkFwd pLink := by
    rcases eq_or_ne pLink (m.linkBack pLink) with heq | hne
    · rw [← heq, Function.update_self]
    · rw [Function.update_of_ne hne]
  by_cases hback : m.linkBack pLink ≠ 0
  · by_cases hfwd : m.linkFwd pLink ≠ 0
    · simp only [usbListUnlink, unlinkFwd, unlinkBack, LinkMem.setFwd, LinkMem.setBack,
        if_pos hback, hread, if_pos hfwd]
    · simp only [usbListUnlink, unlinkFwd, unlinkBack, LinkMem.setFwd, LinkMem.setBack,
        if_pos hback, hread, if_neg hfwd]
  · by_cases hfwd : m.linkFwd pLink ≠ 0
    · simp only [usbListUnlink, unlinkFwd, unlinkBack, LinkMem.setFwd, LinkMem.setBack,
        if_neg hback, if_pos hfwd]
    · simp only [usbListUnlink, unlinkFwd, unlinkBack, LinkMem.setFwd, LinkMem.setBack,
        if_neg hback, if_neg hfwd]

theorem map_filter_link (es : List LinkEntry) (pLink : LinkAddr) :
    (es.filter (·.link ≠ pLink)).map LinkEntry.link =
      (es.map LinkEntry.link).filter (· ≠ pLink) := by
  rw [List.filter_map]
  rfl

theorem ListInv.step_unlink (hi : ListInv heads m lists) {pLink : LinkAddr}
    (hadm : Admitted heads ⟨some m, lists⟩ (.unlink pLink)) :
    ListInv heads (usbListUnlink m pLink) (ListCall.edit lists (.unlink pLink)) := by
  have hsub : ∀ {h e}, e ∈ ListCall.edit lists (.unlink pLink) h → e ∈ lists h :=
    List.mem_of_mem_filter
  have hstruct : (usbListUnlink m pLink).pStruct = m.pStruct := by rw [usbListUnlink_eq]
  refine ⟨?_, ?_, ?_⟩
  · by_cases hon : OnList heads lists pLink
    · obtain ⟨h, hh, hmem⟩ := hon
      have hgone := hi.chains.unlink hh hmem
      rw [usbListUnlink_eq]
      simp only [ListCall.edit, map_filter_link]
      exact hgone
    · obtain ⟨hfwd, hback⟩ := (hadm.resolve_left hon) m rfl
      rw [usbListUnlink_zeroed hfwd hback]
      refine hi.chains.congr ?_
      intro h hh
      simp only [ListCall.edit, map_filter_link]
      exact filter_ne_of_notMem fun hmem => hon ⟨h, hh, hmem⟩
  · intro h hh e he
    rw [hstruct]
    exact hi.entry h hh e (hsub he)
  · intro h hh
    obtain ⟨off, hoff⟩ := hi.offset h hh
    exact ⟨off, fun e he => hoff e (hsub he)⟩

end

theorem listInv_start {heads : LinkAddr → Prop} {m : LinkMem} (hnull : ¬ heads 0)
    (hstart : ∀ h, heads h → m.linkFwd h = 0) : ListInv heads m fun _ => [] where
  chains := chains_empty hnull hstart
  entry _ _ _ he := absurd he List.not_mem_nil
  offset _ _ := ⟨0, fun _ he => absurd he List.not_mem_nil⟩

/-- Every call that is admitted and aligned returns, and leaves the lists it is to leave. -/
theorem ListInv.step {heads : LinkAddr → Prop} {s : ListRun} {c : ListCall}
    (hi : ∃ m, s.mem = some m ∧ ListInv heads m s.lists) (hadm : Admitted heads s c)
    (halign : Aligned s c) : ∃ m, (s.step c).mem = some m ∧ ListInv heads m (s.step c).lists := by
  obtain ⟨m, hm, hi⟩ := hi
  obtain ⟨mem, lists⟩ := s
  obtain rfl : mem = some m := hm
  cases c with
  | link pHead pStruct pLink flag => exact hi.step_link hadm halign
  | unlink pLink => exact ⟨usbListUnlink m pLink, rfl, hi.step_unlink hadm⟩

/-- Over any number of lists, and whatever is linked and unlinked: the lists are walked as
the sequences that insertions and deletions leave, and a link on no list is not unlinked. -/
theorem usbList_sequences {heads : LinkAddr → Prop} {m : LinkMem} (hnull : ¬ heads 0)
    (hstart : ∀ h, heads h → m.linkFwd h = 0) {calls : List ListCall}
    (hadm : Guarded ListRun.step (Admitted heads) (.start m) calls)
    (halign : Guarded ListRun.step Aligned (.start m) calls) :
    Always ListRun.step (Faithful heads) (.start m) calls ∧
    ∀ (m : LinkMem) (pLink : LinkAddr), m.linkFwd pLink = 0 → m.linkBack pLink = 0 →
      usbListUnlink m pLink = m := by
  refine ⟨?_, fun m pLink hfwd hback => usbListUnlink_zeroed hfwd hback⟩
  intro pre hpre
  have hguard : Guarded ListRun.step (fun s c => Admitted heads s c ∧ Aligned s c) (.start m)
      calls := fun q c hq => ⟨hadm q c hq, halign q c hq⟩
  obtain ⟨m', hm', hi⟩ := always_of_guarded
    (fun s => ∃ m, s.mem = some m ∧ ListInv heads m s.lists)
    ⟨m, rfl, listInv_start hnull hstart⟩
    (fun _ _ hi hg => ListInv.step hi hg.1 hg.2) hguard pre hpre
  obtain ⟨m'', hm'', hwalk⟩ := hi.faithful
  exact ⟨m', hm', (Option.some_inj.mp hm'') ▸ hwalk⟩

def clearLinks : LinkMem := ⟨fun _ => 0, fun _ => 0, fun _ => 0⟩

theorem usbList_sequences_three :
    (run ListRun.step (.start clearLinks) [.link 0x10 0x100 0x108 linkHead,
      .link 0x10 0x200 0x208 linkTail, .unlink 0x108]).lists 0x10 = [⟨0x208, 0x200⟩] ∧
    Always ListRun.step (Faithful (· ∈ [0x10])) (.start clearLinks)
      [.link 0x10 0x100 0x108 linkHead, .link 0x10 0x200 0x208 linkTail, .unlink 0x108] ∧
    usbListUnlink clearLinks 0x108 = clearLinks := by
  refine ⟨by decide, ?_, ?_⟩
  · refine (usbList_sequences (by decide) (fun _ _ => rfl) ?_ ?_).1
    · exact guarded_cons (by decide +kernel) (guarded_cons (by decide +kernel)
        (guarded_cons (by decide +kernel) guarded_nil))
    · exact guarded_cons (by decide +kernel) (guarded_cons (by decide +kernel)
        (guarded_cons (by decide +kernel) guarded_nil))
  · exact (@usbList_sequences (· ∈ [0x10]) clearLinks (by decide) (fun _ _ => rfl) []
      guarded_nil guarded_nil).2 clearLinks 0x108 rfl rfl

/-- One structure with two links, put on one list by both: the second call asserts. So does
the last one of four that put two structures on two lists at offsets that change places. -/
theorem usbList_asserts :
    (Guarded ListRun.step (Admitted (· ∈ [0x10])) (.start clearLinks)
      [.link 0x10 0x100 0x110 linkHead, .link 0x10 0x100 0x120 linkTail] ∧
    (run ListRun.step (.start clearLinks)
      [.link 0x10 0x100 0x110 linkHead, .link 0x10 0x100 0x120 linkTail]).mem.isNone) ∧
    Guarded ListRun.step (Admitted (· ∈ [0x10, 0x14])) (.start clearLinks)
      [.link 0x14 0x100 0x120 linkTail, .link 0x14 0x200 0x210 linkTail,
        .link 0x10 0x100 0x110 linkTail, .link 0x10 0x200 0x220 linkTail] ∧
    (run ListRun.step (.start clearLinks)
      [.link 0x14 0x100 0x120 linkTail, .link 0x14 0x200 0x210 linkTail,
        .link 0x10 0x100 0x110 linkTail]).mem.isSome ∧
    (run ListRun.step (.start clearLinks)
      [.link 0x14 0x100 0x120 linkTail, .link 0x14 0x200 0x210 linkTail,
        .link 0x10 0x100 0x110 linkTail, .link 0x10 0x200 0x220 linkTail]).mem.isNone := by
  refine ⟨⟨?_, by decide +kernel⟩, ?_, by decide +kernel, by decide +kernel⟩
  · exact guarded_cons (by decide +kernel) (guarded_cons (by decide +kernel) guarded_nil)
  · exact guarded_cons (by decide +kernel) (guarded_cons (by decide +kernel)
      (guarded_cons (by decide +kernel) (guarded_cons (by decide +kernel) guarded_nil)))

end VxWorks.Usb
