import VxWorks.Netinet.OptionBounds

/-!
# The options of a fragment (ip_output.c)

`ip_optcopy` believes what it reads: a length past the end is cut to what is
left, and a length of 0 keeps it where it is for good. So it copies what it
should exactly when the lengths it meets are good (`SizesOk`), and this is left
to who made the options.

`ip_pcbopts` makes them good. `ip_dooptions` finds them good, or refuses them,
but it also writes: what it stores for an option goes behind the option's length
octet, except for a timestamp with a pointer below 3. The stamp then lies over
the length or the type, or over the end of the option before, after they have
been looked at (`LowStamp`).
-/

namespace VxWorks.Netinet

open VxWorks.Lib VxWorks.Lib.Traced

/-! ## Walking down the options -/

/-- The options in an area, each with its octets; the last of them may say that it is longer than
what is left, it is `cut`. The octet behind the area, `beyond`, is the length of an option that has
none. -/
inductive Walk (beyond : UInt8) : List UInt8 → List (List UInt8) → List UInt8 → Prop
  | nil : Walk beyond [] [] []
  | eol (rest : List UInt8) : Walk beyond (ipoptEol :: rest) [] []
  | nop {cp cut : List UInt8} {items : List (List UInt8)} :
      Walk beyond cp items cut → Walk beyond (ipoptNop :: cp) ([ipoptNop] :: items) cut
  | opt {o : UInt8} {cp cut : List UInt8} {items : List (List UInt8)} :
      o ≠ ipoptEol → o ≠ ipoptNop → 1 ≤ (cp.headD beyond).toNat →
      (cp.headD beyond).toNat ≤ cp.length + 1 →
      Walk beyond ((o :: cp).drop (cp.headD beyond).toNat) items cut →
      Walk beyond (o :: cp) ((o :: cp).take (cp.headD beyond).toNat :: items) cut
  | past {o : UInt8} {cp : List UInt8} : o ≠ ipoptEol → o ≠ ipoptNop →
      cp.length + 1 < (cp.headD beyond).toNat → Walk beyond (o :: cp) [] (o :: cp)

/-- The lengths are good: no option has the length 0, and none that is copied is longer than what
is left. -/
inductive SizesOk (beyond : UInt8) : List UInt8 → Prop
  | nil : SizesOk beyond []
  | eol (rest : List UInt8) : SizesOk beyond (ipoptEol :: rest)
  | nop {cp : List UInt8} : SizesOk beyond cp → SizesOk beyond (ipoptNop :: cp)
  | opt {o : UInt8} {cp : List UInt8} : o ≠ ipoptEol → o ≠ ipoptNop →
      1 ≤ (cp.headD beyond).toNat → (cp.headD beyond).toNat ≤ cp.length + 1 →
      SizesOk beyond ((o :: cp).drop (cp.headD beyond).toNat) → SizesOk beyond (o :: cp)
  | past {o : UInt8} {cp : List UInt8} : o ≠ ipoptEol → o ≠ ipoptNop →
      cp.length + 1 < (cp.headD beyond).toNat → ipoptCopied o = false → SizesOk beyond (o :: cp)

/-- What a fragment gets: the options with the copied flag, and NOPs. -/
def keptOption : List UInt8 → Bool
  | [] => false
  | o :: _ => o = ipoptNop || ipoptCopied o

/-- `ip_optcopy` returns, with the options that are to be copied, in their order and unchanged, and
what fills them to a multiple of four; they take no more room than before. -/
def CopiesRight (beyond : UInt8) (opts : List UInt8) : Prop :=
  ∃ out, ipOptcopy beyond opts = some out ∧ out.length % 4 = 0 ∧ out.length ≤ opts.length ∧
    ∀ items cut, Walk beyond opts items cut → keptOption cut = false ∧
      ∃ k < 4, out = (items.filter keptOption).flatten ++ List.replicate k ipoptEol

variable {beyond : UInt8} {opts cut : List UInt8} {items : List (List UInt8)}

theorem SizesOk.walk (h : SizesOk beyond opts) :
    ∃ items cut, Walk beyond opts items cut ∧ keptOption cut = false := by
  induction h with
  | nil => exact ⟨[], [], .nil, rfl⟩
  | eol rest => exact ⟨[], [], .eol rest, rfl⟩
  | nop _ ih =>
      obtain ⟨items, cut, hw, hcut⟩ := ih
      exact ⟨_, cut, .nop hw, hcut⟩
  | opt heol hnop hpos hle _ ih =>
      obtain ⟨items, cut, hw, hcut⟩ := ih
      exact ⟨_, cut, .opt heol hnop hpos hle hw, hcut⟩
  | past heol hnop hover hcopied =>
      refine ⟨[], _, .past heol hnop hover, ?_⟩
      simp [keptOption, hnop, hcopied]

theorem Walk.sizesOk (h : Walk beyond opts items cut) (hcut : keptOption cut = false) :
    SizesOk beyond opts := by
  induction h with
  | nil => exact .nil
  | eol rest => exact .eol rest
  | nop _ ih => exact (ih hcut).nop
  | opt heol hnop hpos hle _ ih => exact .opt heol hnop hpos hle (ih hcut)
  | past heol hnop hover =>
      refine .past heol hnop hover ?_
      simpa [keptOption, hnop] using hcut

/-! ## ip_optcopy -/

/-- What is copied of the options of a walk. -/
theorem optcopyLoop_walk (h : Walk beyond opts items cut) {n : Nat} (hn : opts.length ≤ n) :
    optcopyLoop beyond n opts =
      some ((items.filter keptOption).flatten ++ if keptOption cut then cut else []) := by
  induction h generalizing n with
  | nil => cases n <;> rfl
  | eol rest =>
      obtain ⟨n, rfl⟩ : ∃ m, n = m + 1 := ⟨n - 1, by simp at hn; omega⟩
      rw [optcopyLoop, if_pos rfl]
      rfl
  | nop _ ih =>
      obtain ⟨n, rfl⟩ : ∃ m, n = m + 1 := ⟨n - 1, by simp at hn; omega⟩
      rw [optcopyLoop, if_neg (by decide), if_pos rfl, ih (by simpa using hn)]
      rfl
  | @opt o cp cut items heol hnop hpos hle _ ih =>
      obtain ⟨n, rfl⟩ : ∃ m, n = m + 1 := ⟨n - 1, by simp at hn; omega⟩
      simp only [List.length_cons] at hn
      rw [optcopyLoop, if_neg heol, if_neg hnop]
      simp only [Nat.min_eq_left hle]
      rw [if_neg (by omega), ih (by rw [List.length_drop, List.length_cons]; omega)]
      obtain ⟨k, hk⟩ : ∃ k, (cp.headD beyond).toNat = k + 1 := ⟨_, (Nat.sub_add_cancel hpos).symm⟩
      rw [hk, List.take_succ_cons, List.filter_cons]
      simp only [Option.map_some, keptOption, hnop, decide_false, Bool.false_or]
      cases ipoptCopied o <;> simp
  | @past o cp heol hnop hover =>
      obtain ⟨n, rfl⟩ : ∃ m, n = m + 1 := ⟨n - 1, by simp at hn; omega⟩
      rw [optcopyLoop, if_neg heol, if_neg hnop]
      simp only [Nat.min_eq_right (Nat.le_of_lt hover)]
      have hall : (o :: cp).drop (cp.length + 1) = [] := by simp
      have htake : (o :: cp).take (cp.length + 1) = o :: cp := by simp
      have hend : optcopyLoop beyond n [] = some [] := by cases n <;> rfl
      rw [if_neg (by omega), hall, htake, hend]
      simp only [Option.map_some, keptOption, hnop, decide_false, Bool.false_or, List.append_nil,
        List.filter_nil, List.flatten_nil, List.nil_append]

/-- The loop ends only on options that can be walked. -/
theorem walk_of_optcopyLoop {n : Nat} {dp : List UInt8} (h : optcopyLoop beyond n opts = some dp) :
    ∃ items cut, Walk beyond opts items cut := by
  induction n generalizing opts dp with
  | zero =>
      cases opts with
      | nil => exact ⟨[], [], .nil⟩
      | cons o cp => cases h
  | succ n ih =>
      cases opts with
      | nil => exact ⟨[], [], .nil⟩
      | cons o cp =>
          rw [optcopyLoop] at h
          by_cases heol : o = ipoptEol
          · subst heol
            exact ⟨[], [], .eol cp⟩
          rw [if_neg heol] at h
          by_cases hnop : o = ipoptNop
          · subst hnop
            rw [if_pos rfl, Option.map_eq_some_iff] at h
            obtain ⟨dp, hdp, -⟩ := h
            obtain ⟨items, cut, hw⟩ := ih hdp
            exact ⟨_, cut, .nop hw⟩
          rw [if_neg hnop] at h
          by_cases hover : cp.length + 1 < (cp.headD beyond).toNat
          · exact ⟨[], _, .past heol hnop hover⟩
          rw [Nat.not_lt] at hover
          simp only [Nat.min_eq_left hover] at h
          by_cases hzero : (cp.headD beyond).toNat = 0
          · rw [if_pos hzero] at h
            cases h
          rw [if_neg hzero, Option.map_eq_some_iff] at h
          obtain ⟨dp, hdp, -⟩ := h
          obtain ⟨items, cut, hw⟩ := ih hdp
          exact ⟨_, cut, .opt heol hnop (Nat.pos_of_ne_zero hzero) hover hw⟩

theorem Walk.length_le (h : Walk beyond opts items cut) :
    (items.filter keptOption).flatten.length ≤ opts.length := by
  induction h with
  | nil => exact Nat.le_refl 0
  | eol rest => exact Nat.zero_le _
  | nop _ ih =>
      rw [List.filter_cons_of_pos (by decide), List.flatten_cons, List.length_append,
        List.length_cons, List.length_cons]
      simpa [Nat.add_comm] using ih
  | @opt o cp cut items heol hnop hpos hle _ ih =>
      rw [List.length_drop] at ih
      rw [List.filter_cons]
      split
      · rw [List.flatten_cons, List.length_append, List.length_take]
        simp only [List.length_cons] at ih ⊢
        omega
      · omega
  | past _ _ _ => exact Nat.zero_le _

/-- The walk is the only one. -/
theorem Walk.unique (h : Walk beyond opts items cut) {items' : List (List UInt8)}
    {cut' : List UInt8} (h' : Walk beyond opts items' cut') : items' = items ∧ cut' = cut := by
  induction h generalizing items' cut' with
  | nil =>
      cases h'
      exact ⟨rfl, rfl⟩
  | eol rest =>
      cases h' with
      | eol => exact ⟨rfl, rfl⟩
      | opt heol => exact absurd rfl heol
      | past heol => exact absurd rfl heol
  | nop _ ih =>
      cases h' with
      | nop h' =>
          obtain ⟨rfl, rfl⟩ := ih h'
          exact ⟨rfl, rfl⟩
      | opt _ hnop => exact absurd rfl hnop
      | past _ hnop => exact absurd rfl hnop
  | opt heol hnop _ hle _ ih =>
      cases h' with
      | eol => exact absurd rfl heol
      | nop => exact absurd rfl hnop
      | opt _ _ _ _ h' =>
          obtain ⟨rfl, rfl⟩ := ih h'
          exact ⟨rfl, rfl⟩
      | past _ _ hover => exact absurd hle (Nat.not_le.mpr hover)
  | past heol hnop hover =>
      cases h' with
      | eol => exact absurd rfl heol
      | nop => exact absurd rfl hnop
      | opt _ _ _ hle => exact absurd hle (Nat.not_le.mpr hover)
      | past => exact ⟨rfl, rfl⟩

theorem copiesRight_iff (h4 : opts.length % 4 = 0) :
    CopiesRight beyond opts ↔ SizesOk beyond opts := by
  constructor
  · rintro ⟨out, hout, -, -, hexact⟩
    rw [ipOptcopy, Option.map_eq_some_iff] at hout
    obtain ⟨dp, hdp, -⟩ := hout
    obtain ⟨items, cut, hw⟩ := walk_of_optcopyLoop hdp
    exact hw.sizesOk (hexact items cut hw).1
  · intro h
    obtain ⟨items, cut, hw, hcut⟩ := h.walk
    have hle := hw.length_le
    have hloop : optcopyLoop beyond opts.length opts = some (items.filter keptOption).flatten := by
      rw [optcopyLoop_walk hw (Nat.le_refl _), hcut]
      simp
    refine ⟨_, by rw [ipOptcopy, hloop]; rfl, ?_, ?_, ?_⟩
    · rw [List.length_append, List.length_replicate]
      omega
    · rw [List.length_append, List.length_replicate]
      omega
    · intro items' cut' hw'
      obtain ⟨rfl, rfl⟩ := hw.unique hw'
      exact ⟨hcut, _, Nat.mod_lt _ (by decide), rfl⟩

/-! ## ip_pcbopts -/

/-- The options of a socket: `ipopt_dst`, the address of the first hop, and `ipopt_list`. -/
structure PcbOpts where
  dst : List UInt8
  opts : List UInt8

/-- The loop of `ip_pcbopts` over the octets from `cp` on. An option that is nothing but its type
has its length behind the area, where no length is right: it is `bad` in any case. -/
def pcboptsLoop : Nat → List UInt8 → List UInt8 → Option PcbOpts
  | _, dst, [] => some ⟨dst, []⟩
  | 0, _, _ :: _ => none
  | n + 1, dst, opt :: cp =>
      if opt = ipoptEol then some ⟨dst, opt :: cp⟩
      else if opt = ipoptNop then
        (pcboptsLoop n dst cp).map fun p => { p with opts := ipoptNop :: p.opts }
      else
        match cp with
        | [] => none
        | l :: body =>
            let optlen := l.toNat
            if optlen ≤ 1 ∨ body.length + 2 < optlen then none
            else if opt = ipoptLsrr ∨ opt = ipoptSsrr then
              if optlen < ipoptMinoff - 1 + 4 then none
              else
                -- the first hop is taken out of the option
                let route := opt :: (l - 4) :: (body.take 1 ++ body.drop 5)
                (pcboptsLoop n ((body.drop 1).take 4) (route.drop (optlen - 4))).map fun p =>
                  { p with opts := route.take (optlen - 4) ++ p.opts }
            else
              (pcboptsLoop n dst ((opt :: l :: body).drop optlen)).map fun p =>
                { p with opts := (opt :: l :: body).take optlen ++ p.opts }

/-- `ip_pcbopts`; `room` is whether the mbuf has room for an address behind its data. No mbuf or an
empty one turns the options off. -/
def ipPcbopts (room : Bool) (m : List UInt8) : Option (Option PcbOpts) :=
  if m = [] then some none
  else if m.length % 4 ≠ 0 then none
  else if !room then none
  else
    match pcboptsLoop m.length [0, 0, 0, 0] m with
    | none => none
    | some p => if 40 < p.opts.length then none else some (some p)

theorem options_sizesOk (h : Options opts) (beyond : UInt8) : SizesOk beyond opts := by
  induction h with
  | nil => exact .nil
  | eol rest => exact .eol rest
  | nop _ ih => exact ih.nop
  | @opt o l body cp heol hnop hl _ ih =>
      have hlen : (List.headD (l :: (body ++ cp)) beyond).toNat = body.length + 2 := hl
      refine .opt heol hnop (by omega) (by simp; omega) ?_
      rw [hlen]
      simpa using ih

/-- An option of the length it says, in front of other options. -/
theorem options_take {o l : UInt8} {body cp : List UInt8} (heol : o ≠ ipoptEol)
    (hnop : o ≠ ipoptNop) (htwo : 2 ≤ l.toNat) (hle : l.toNat ≤ body.length + 2) (h : Options cp) :
    Options ((o :: l :: body).take l.toNat ++ cp) := by
  obtain ⟨k, hk⟩ : ∃ k, l.toNat = k + 2 := ⟨l.toNat - 2, by omega⟩
  rw [hk, List.take_succ_cons, List.take_succ_cons]
  refine .opt heol hnop ?_ h
  rw [List.length_take]
  omega

theorem pcboptsLoop_options {n : Nat} {dst cp : List UInt8} {p : PcbOpts}
    (h : pcboptsLoop n dst cp = some p) : Options p.opts ∧ p.opts.length % 4 = cp.length % 4 := by
  induction n generalizing dst cp p with
  | zero =>
      cases cp with
      | nil =>
          cases h
          exact ⟨.nil, rfl⟩
      | cons _ _ => cases h
  | succ n ih =>
      cases cp with
      | nil =>
          cases h
          exact ⟨.nil, rfl⟩
      | cons opt cp =>
          rw [pcboptsLoop.eq_def] at h
          dsimp only at h
          by_cases heol : opt = ipoptEol
          · subst heol
            rw [if_pos rfl] at h
            cases h
            exact ⟨.eol cp, rfl⟩
          rw [if_neg heol] at h
          by_cases hnop : opt = ipoptNop
          · subst hnop
            rw [if_pos rfl, Option.map_eq_some_iff] at h
            obtain ⟨q, hq, rfl⟩ := h
            obtain ⟨hopts, hlen⟩ := ih hq
            refine ⟨hopts.nop, ?_⟩
            simp only [List.length_cons]
            omega
          rw [if_neg hnop] at h
          cases cp with
          | nil => cases h
          | cons l body =>
              dsimp only at h
              by_cases hbad : l.toNat ≤ 1 ∨ body.length + 2 < l.toNat
              · rw [if_pos hbad] at h
                cases h
              rw [if_neg hbad] at h
              by_cases hroute : opt = ipoptLsrr ∨ opt = ipoptSsrr
              · rw [if_pos hroute] at h
                by_cases hshort : l.toNat < ipoptMinoff - 1 + 4
                · rw [if_pos hshort] at h
                  cases h
                rw [if_neg hshort, Option.map_eq_some_iff] at h
                obtain ⟨q, hq, rfl⟩ := h
                obtain ⟨hopts, hlen⟩ := ih hq
                rw [ipoptMinoff] at hshort
                have hl : (l - 4).toNat = l.toNat - 4 := by
                  rw [UInt8.toNat_sub_of_le]
                  · rfl
                  · exact UInt8.le_iff_toNat_le.mpr (by omega : 4 ≤ l.toNat)
                have hbody : (body.take 1 ++ body.drop 5).length = body.length - 4 := by
                  simp
                  omega
                have hitem : Options ((opt :: (l - 4) :: (body.take 1 ++ body.drop 5)).take
                    (l - 4).toNat ++ q.opts) :=
                  options_take heol hnop (by omega) (by omega) hopts
                rw [hl] at hitem
                refine ⟨hitem, ?_⟩
                simp only [List.length_append, List.length_take, List.length_drop, List.length_cons]
                  at hlen ⊢
                omega
              · rw [if_neg hroute, Option.map_eq_some_iff] at h
                obtain ⟨q, hq, rfl⟩ := h
                obtain ⟨hopts, hlen⟩ := ih hq
                refine ⟨options_take heol hnop (by omega) (by omega) hopts, ?_⟩
                simp only [List.length_append, List.length_take, List.length_drop, List.length_cons]
                  at hlen ⊢
                omega

/-- The options of a socket are good for `ip_optcopy`. -/
theorem ipPcbopts_sizesOk {room : Bool} {m : List UInt8} {p : PcbOpts}
    (h : ipPcbopts room m = some (some p)) :
    (∀ beyond, SizesOk beyond p.opts) ∧ p.opts.length % 4 = 0 ∧ p.opts.length ≤ 40 := by
  rw [ipPcbopts] at h
  split_ifs at h with hm h4 hroom
  · cases h
  cases hloop : pcboptsLoop m.length [0, 0, 0, 0] m with
  | none =>
      rw [hloop] at h
      cases h
  | some q =>
      simp only [hloop] at h
      split_ifs at h with hlong
      cases h
      obtain ⟨hopts, hlen⟩ := pcboptsLoop_options hloop
      exact ⟨options_sizesOk hopts, by omega, by omega⟩

/-! ## ip_dooptions -/

variable {r : Router} {opt : UInt8} {dst : UInt32} {cp cnt optlen : Nat} {forward : Bool}
  {s : SrcRoute} {b : Buf}

/-- A stamp is stored over the length octet or before it. An address in front of the stamp may be
what makes it so. -/
def Round.LowStamp (r : Router) (dst : UInt32) (round : Round) : Prop :=
  let b := round.buf
  let cp := round.cp
  let len := (b (cp + 1)).toNat
  let ptr := (b (cp + 2)).toNat
  let flg := (b (cp + 3)).toNat % 16
  b cp = ipoptTs ∧ 5 ≤ len ∧ len ≤ round.cnt ∧ ptr ≤ len - 4 ∧
    (flg = 0 ∧ ptr < 3 ∨ flg = 1 ∧ ptr + 8 ≤ len ∧ ∃ ia ∈ r.ifaofIfpforaddr dst,
      ptr < 3 ∨ ptr = 3 ∧ ((ia >>> 24).toUInt8 + 4).toNat < 3)

instance (r : Router) (dst : UInt32) (round : Round) : Decidable (round.LowStamp r dst) :=
  inferInstanceAs (Decidable (_ ∧ _ ∧ _ ∧ _ ∧ (_ ∨ _)))

/-- What was looked at of the options up to `cp`, and what is in front of them but `ip_dst`, is as
it was. -/
def KeptTo (cp : Nat) (b b' : Buf) : Prop :=
  ∀ a, a < cp + 2 → ¬ (ipDstAt ≤ a ∧ a < ipDstAt + 4) → b' a = b a

theorem KeptTo.refl (cp : Nat) (b : Buf) : KeptTo cp b b := fun _ _ _ => rfl

theorem KeptTo.trans {n : Nat} {b₁ b' : Buf} (h : KeptTo cp b b₁) (h' : KeptTo (cp + n) b₁ b') :
    KeptTo cp b b' :=
  fun a ha hdst => (h' a (by omega) hdst).trans (h a ha hdst)

/-- Type and length are as they were. -/
theorem KeptTo.octets {b' : Buf} (h : KeptTo cp b b') (hcp : 20 ≤ cp) :
    b' cp = b cp ∧ b' (cp + 1) = b (cp + 1) := by
  have hdst : ipDstAt = 16 := rfl
  exact ⟨h cp (by omega) (by omega), h (cp + 1) (by omega) (by omega)⟩

theorem KeptTo.set8 {b' : Buf} (h : KeptTo cp b b') {k : Nat} (hk : cp + 2 ≤ k) (v : UInt8) :
    KeptTo cp b (b'.set8 k v) := by
  intro a ha hdst
  rw [Buf.set8_of_ne _ (by omega)]
  exact h a ha hdst

theorem KeptTo.set32 {b' : Buf} (h : KeptTo cp b b') {k : Nat} (hk : cp + 2 ≤ k) (v : UInt32) :
    KeptTo cp b (b'.set32 k v) := by
  intro a ha hdst
  rw [Buf.set32_of_ne _ (by omega)]
  exact h a ha hdst

theorem KeptTo.setDst {b' : Buf} (h : KeptTo cp b b') (v : UInt32) :
    KeptTo cp b (b'.set32 ipDstAt v) := by
  intro a ha hdst
  rw [Buf.set32_of_ne _ (by omega)]
  exact h a ha hdst

theorem optSourceRoute_here {here : UInt32} (hoff : ¬ (b (cp + 2)).toNat < ipoptMinoff)
    (hhere : r.ifaIfwithaddr (b.u32 ipDstAt) = some here)
    (hroom : ¬ noRoom ((b (cp + 2)).toNat - 1) optlen = true) :
    let off := (b (cp + 2)).toNat - 1
    optSourceRoute r opt cp optlen forward b =
      match routeIa r opt (b.u32 (cp + off)) with
      | none => .bad .unreach icmpUnreachSrcfail
      | some ia =>
          let b' := (b.set32 ipDstAt (b.u32 (cp + off))).set32 (cp + off) ia
          .next (!inMulticast (b.u32 (cp + off))) (b'.set8 (cp + 2) (b' (cp + 2) + 4)) := by
  unfold optSourceRoute
  dsimp only
  rw [if_neg hoff, hhere]
  dsimp only
  rw [if_neg hroom]
  rfl

theorem optSourceRoute_keeps {forward' : Bool} {b' : Buf}
    (h : optSourceRoute r opt cp optlen forward b = .next forward' b') : KeptTo cp b b' := by
  by_cases hoff : (b (cp + 2)).toNat < ipoptMinoff
  · unfold optSourceRoute at h
    dsimp only at h
    rw [if_pos hoff] at h
    cases h
  cases hhere : r.ifaIfwithaddr (b.u32 ipDstAt) with
  | none =>
      unfold optSourceRoute at h
      dsimp only at h
      rw [if_neg hoff, hhere] at h
      dsimp only at h
      split_ifs at h
      cases h
      exact .refl cp b
  | some here =>
      by_cases hroom : noRoom ((b (cp + 2)).toNat - 1) optlen = true
      · unfold optSourceRoute at h
        dsimp only at h
        rw [if_neg hoff, hhere] at h
        dsimp only at h
        rw [if_pos hroom] at h
        cases h
        exact .refl cp b
      rw [optSourceRoute_here hoff hhere hroom] at h
      rw [ipoptMinoff, Nat.not_lt] at hoff
      cases hia : routeIa r opt (b.u32 (cp + ((b (cp + 2)).toNat - 1))) with
      | none =>
          rw [hia] at h
          cases h
      | some ia =>
          rw [hia] at h
          cases h
          exact ((((KeptTo.refl cp b).setDst _).set32 (by omega) _).set8 (by omega) _)

theorem optRecordRoute_room (hoff : ¬ (b (cp + 2)).toNat < ipoptMinoff)
    (hroom : ¬ noRoom ((b (cp + 2)).toNat - 1) optlen = true) :
    optRecordRoute r cp optlen forward b =
      match recordIa r (b.u32 ipDstAt) with
      | none => .bad .unreach icmpUnreachHost
      | some ia =>
          let b' := b.set32 (cp + ((b (cp + 2)).toNat - 1)) ia
          .next forward (b'.set8 (cp + 2) (b' (cp + 2) + 4)) := by
  unfold optRecordRoute
  dsimp only
  rw [if_neg hoff, if_neg hroom]
  rfl

theorem optRecordRoute_keeps {forward' : Bool} {b' : Buf}
    (h : optRecordRoute r cp optlen forward b = .next forward' b') : KeptTo cp b b' := by
  by_cases hoff : (b (cp + 2)).toNat < ipoptMinoff
  · unfold optRecordRoute at h
    dsimp only at h
    rw [if_pos hoff] at h
    cases h
  by_cases hroom : noRoom ((b (cp + 2)).toNat - 1) optlen = true
  · unfold optRecordRoute at h
    dsimp only at h
    rw [if_neg hoff, if_pos hroom] at h
    cases h
    exact .refl cp b
  rw [optRecordRoute_room hoff hroom] at h
  rw [ipoptMinoff, Nat.not_lt] at hoff
  cases hia : recordIa r (b.u32 ipDstAt) with
  | none =>
      rw [hia] at h
      cases h
  | some ia =>
      rw [hia] at h
      cases h
      exact (((KeptTo.refl cp b).set32 (by omega) _).set8 (by omega) _)

theorem KeptTo.stamp {b' : Buf} (h : KeptTo cp b b') (hptr : 3 ≤ (b' (cp + 2)).toNat) :
    KeptTo cp b (optStamp r cp b') :=
  (h.set32 (by omega) _).set8 (by omega) _

theorem optTimestamp_keeps {forward' : Bool} {b' : Buf} (hlen : (b (cp + 1)).toNat ≤ cnt)
    (hts : b cp = ipoptTs) {log : List Touch}
    (hlow : ¬ Round.LowStamp r dst ⟨b, cp, cnt, log⟩)
    (h : optTimestamp r dst cp forward b = .next forward' b') : KeptTo cp b b' := by
  have hmax := (b (cp + 1)).toNat_lt
  unfold optTimestamp at h
  rw [Round.LowStamp] at hlow
  dsimp only at h hlow
  by_cases hshort : (b (cp + 1)).toNat < 5
  · rw [if_pos hshort] at h
    cases h
  rw [if_neg hshort] at h
  by_cases hfull : (b (cp + 1)).toNat - 4 < (b (cp + 2)).toNat
  · rw [if_pos hfull] at h
    split_ifs at h
    cases h
    exact (KeptTo.refl cp b).set8 (by omega) _
  rw [if_neg hfull] at h
  have hlow' := fun hflg => hlow ⟨hts, by omega, hlen, by omega, hflg⟩
  by_cases htsonly : (b (cp + 3)).toNat % 16 = 0
  · rw [if_pos htsonly] at h
    cases h
    refine (KeptTo.refl cp b).stamp ?_
    by_contra hptr
    exact hlow' (.inl ⟨htsonly, by omega⟩)
  rw [if_neg htsonly] at h
  by_cases haddr : (b (cp + 3)).toNat % 16 = 1
  · rw [if_pos haddr] at h
    by_cases hroom : (b (cp + 1)).toNat < (b (cp + 2)).toNat + 8
    · rw [if_pos hroom] at h
      cases h
    rw [if_neg hroom] at h
    cases hia : r.ifaofIfpforaddr dst with
    | none =>
        rw [hia] at h
        cases h
        exact .refl cp b
    | some ia =>
        rw [hia] at h
        cases h
        have hptr : ¬ ((b (cp + 2)).toNat < 3 ∨
            (b (cp + 2)).toNat = 3 ∧ ((ia >>> 24).toUInt8 + 4).toNat < 3) := fun hptr =>
          hlow' (.inr ⟨haddr, by omega, ia, hia, hptr⟩)
        refine ((KeptTo.refl cp b).set32 (by omega) _ |>.set8 (by omega) _).stamp ?_
        rw [Buf.set8_same]
        by_cases heq : (b (cp + 2)).toNat = 3
        · have hover : (b.set32 (cp + (b (cp + 2)).toNat - 1) ia) (cp + 2) =
              (ia >>> 24).toUInt8 := by
            rw [heq]
            exact if_pos (by omega)
          rw [hover]
          omega
        · rw [Buf.set32_of_ne _ (by omega), toNat_add_four (by omega)]
          omega
  rw [if_neg haddr] at h
  by_cases hprespec : (b (cp + 3)).toNat % 16 = 3
  · rw [if_pos hprespec] at h
    by_cases hroom : (b (cp + 1)).toNat < (b (cp + 2)).toNat + 8
    · rw [if_pos hroom] at h
      cases h
    rw [if_neg hroom] at h
    cases hia : r.ifaIfwithaddr (b.u32 (cp + (b (cp + 2)).toNat - 1)) with
    | none =>
        rw [hia] at h
        cases h
        exact .refl cp b
    | some ia =>
        rw [hia] at h
        cases h
        refine ((KeptTo.refl cp b).set8 (by omega) _).stamp ?_
        rw [Buf.set8_same, toNat_add_four (by omega)]
        omega
  · rw [if_neg hprespec] at h
    cases h

theorem optSwitch_keeps {forward' : Bool} {b' : Buf} (hlen : (b (cp + 1)).toNat ≤ cnt)
    {log : List Touch} (hlow : ¬ Round.LowStamp r dst ⟨b, cp, cnt, log⟩)
    (h : optSwitch r dst cp optlen forward b = .next forward' b') : KeptTo cp b b' := by
  unfold optSwitch at h
  dsimp only at h
  by_cases hroute : b cp = ipoptLsrr ∨ b cp = ipoptSsrr
  · rw [if_pos hroute] at h
    exact optSourceRoute_keeps h
  rw [if_neg hroute] at h
  by_cases hrr : b cp = ipoptRr
  · rw [if_pos hrr] at h
    exact optRecordRoute_keeps h
  rw [if_neg hrr] at h
  by_cases hts : b cp = ipoptTs
  · rw [if_pos hts] at h
    exact optTimestamp_keeps hlen hts hlow h
  · rw [if_neg hts] at h
    cases h
    exact .refl cp b

theorem headD_slice (b : Buf) (k n : Nat) : (b.slice k n).headD (b (k + n)) = b k := by
  cases n with
  | zero => rfl
  | succ n => rw [Buf.slice_succ]; rfl

theorem drop_slice (b : Buf) (k : Nat) {j n : Nat} (h : j ≤ n) :
    (b.slice k n).drop j = b.slice (k + j) (n - j) := by
  obtain ⟨m, rfl⟩ := Nat.exists_eq_add_of_le h
  rw [Buf.slice_add, List.drop_left' (Buf.length_slice b k j), Nat.add_sub_cancel_left]

/-- The lengths of the options that a run of the loop has accepted are good, also when it is
over. -/
theorem dooptionsLoopT_sizesOk {fuel : Nat} (hfuel : cnt ≤ fuel) {forward' : Bool} {s' : SrcRoute}
    (hcp : 20 ≤ cp)
    (hexit : (dooptionsLoopT r dst fuel cp cnt forward s b).exit = .next forward' s')
    (hlow : ∀ round ∈ (dooptionsLoopT r dst fuel cp cnt forward s b).rounds,
      ¬ round.LowStamp r dst) {b' : Buf}
    (hb' : (dooptionsLoopT r dst fuel cp cnt forward s b).buf = b') :
    KeptTo cp b b' ∧ SizesOk (b' (cp + cnt)) (b'.slice cp cnt) := by
  induction fuel generalizing cp cnt forward s b with
  | zero =>
      obtain rfl : cnt = 0 := by omega
      cases hb'
      exact ⟨.refl cp b, .nil⟩
  | succ fuel ih =>
      rw [dooptionsLoopT] at hexit hlow hb'
      by_cases hzero : cnt = 0
      · rw [if_pos hzero] at hb'
        cases hb'
        rw [hzero]
        exact ⟨.refl cp b, .nil⟩
      rw [if_neg hzero] at hexit hlow hb'
      obtain ⟨k, rfl⟩ : ∃ k, cnt = k + 1 := ⟨cnt - 1, by omega⟩
      rw [Buf.slice_succ]
      by_cases heol : b cp = ipoptEol
      · rw [optRoundT_eol heol] at hb'
        dsimp only at hb'
        subst hb'
        rw [heol]
        exact ⟨.refl cp b, .eol _⟩
      by_cases hnop : b cp = ipoptNop
      · rw [optRoundT_nop hnop] at hexit hlow hb'
        dsimp only at hexit hlow hb'
        obtain ⟨hrest, hok⟩ := ih (by omega) (by omega) hexit
          (fun round hround => hlow round (List.mem_cons_of_mem _ hround)) hb'
        have hkept := (KeptTo.refl cp b).trans hrest
        rw [(hkept.octets hcp).1, hnop]
        rw [Nat.add_sub_cancel, (by omega : cp + 1 + k = cp + (k + 1))] at hok
        exact ⟨hkept, hok.nop⟩
      by_cases hbad : (b (cp + 1)).toNat = 0 ∨ k + 1 < (b (cp + 1)).toNat
      · rw [optRoundT_bad heol hnop hbad] at hexit
        cases hexit
      rw [optRoundT_opt heol hnop hbad] at hexit hlow hb'
      have hswitch := optSwitchT_onto hcp r dst (b (cp + 1)).toNat forward s b
      dsimp only at hexit hlow hb'
      cases hval : ((optSwitchT r dst (b cp) cp (b (cp + 1)).toNat forward s).run b).val with
      | bad type code =>
          rw [hval] at hexit
          cases hexit
      | next forward₁ s₁ =>
          rw [hval] at hexit hlow hb' hswitch
          obtain ⟨hnow, hthen⟩ := List.forall_mem_cons.mp hlow
          have hround := optSwitch_keeps (by omega) hnow hswitch.symm
          obtain ⟨hrest, hok⟩ := ih (by omega) (by omega) hexit hthen hb'
          have hkept := hround.trans hrest
          obtain ⟨htype, hlength⟩ := hkept.octets hcp
          refine ⟨hkept, ?_⟩
          have hhead : ((b'.slice (cp + 1) k).headD (b' (cp + (k + 1)))).toNat =
              (b (cp + 1)).toNat := by
            rw [(by omega : cp + (k + 1) = cp + 1 + k), headD_slice, hlength]
          refine .opt (by rwa [htype]) (by rwa [htype]) (by omega) ?_ ?_
          · rw [hhead, Buf.length_slice]
            omega
          · rw [hhead, ← Buf.slice_succ, drop_slice _ _ (by omega)]
            rwa [(by omega : cp + (b (cp + 1)).toNat + (k + 1 - (b (cp + 1)).toNat) =
              cp + (k + 1))] at hok

/-! ## Both together -/

/-- The options of a header, and the octet behind them. -/
def optArea (b : Buf) : List UInt8 := b.slice 20 (ipHlen b - 20)

def behindHeader (b : Buf) : UInt8 := b (ipHlen b)

/-- `ip_dooptions` has let the datagram pass, with the header as it is in `b'`. -/
def Accepted (r : Router) (b b' : Buf) : Prop :=
  ipDooptions r b = .process b' ∨ ipDooptions r b = .forward b'

theorem Accepted.run {b' : Buf} (h : Accepted r b b') (s : SrcRoute) :
    (∃ forward s', (optionsRun r s b).exit = .next forward s') ∧ (optionsRun r s b).buf = b' := by
  have honto := dooptionsLoopT_onto r (b.u32 ipDstAt) (ipHlen b - 20) 20 (ipHlen b - 20) false s b
    (Nat.le_refl 20)
  rw [Accepted, ipDooptions, ← honto, ← optionsRun] at h
  cases hexit : (optionsRun r s b).exit with
  | bad type code =>
      rw [hexit] at h
      rcases h with h | h <;> cases h
  | next forward s' =>
      rw [hexit] at h
      refine ⟨⟨forward, s', rfl⟩, ?_⟩
      cases forward
      · rcases h with h | h <;> cases h
        rfl
      · rcases h with h | h <;> cases h
        rfl

theorem Accepted.sizesOk {b' : Buf} (h : Accepted r b b') (hhl : 20 ≤ ipHlen b)
    (hlow : ∀ round ∈ (ipDooptionsT r s b).rounds, ¬ round.LowStamp r (b.u32 ipDstAt)) :
    SizesOk (behindHeader b') (optArea b') := by
  obtain ⟨⟨forward, s', hexit⟩, hb'⟩ := h.run s
  rw [ipDooptionsT_rounds] at hlow
  obtain ⟨hkept, hok⟩ := dooptionsLoopT_sizesOk (Nat.le_refl _) (Nat.le_refl 20) hexit hlow hb'
  have hfirst : b' 0 = b 0 := hkept 0 (by decide) (by decide)
  have hhlen : ipHlen b' = ipHlen b := by rw [ipHlen, ipHlen, hfirst]
  rw [Nat.add_sub_cancel' hhl] at hok
  rwa [behindHeader, optArea, hhlen]

/-- `ip_optcopy` copies what it should of an accepted header exactly when the lengths it meets there
are good. They are, unless a stamp has been stored too low; and those of a socket's options always
are. -/
theorem ip_optcopy_right_iff (r : Router) (s : SrcRoute) (b b' : Buf) (hhl : 20 ≤ ipHlen b)
    (h : Accepted r b b') :
    (CopiesRight (behindHeader b') (optArea b') ↔ SizesOk (behindHeader b') (optArea b')) ∧
      ((∀ round ∈ (ipDooptionsT r s b).rounds, ¬ round.LowStamp r (b.u32 ipDstAt)) →
        SizesOk (behindHeader b') (optArea b')) ∧
      ∀ room m p beyond, ipPcbopts room m = some (some p) → CopiesRight beyond p.opts := by
  refine ⟨copiesRight_iff ?_, h.sizesOk hhl, ?_⟩
  · rw [optArea, Buf.length_slice, ipHlen]
    omega
  · intro room m p beyond hp
    obtain ⟨hok, h4, -⟩ := ipPcbopts_sizesOk hp
    exact (copiesRight_iff h4).mpr (hok beyond)

theorem ip_optcopy_right_stamp :
    ∃ b', Accepted anyRouter (Buf.of (fixedHeader 8 ++ [68, 12, 5, 0, 0, 0, 0, 0, 0, 0, 0, 0])) b' ∧
      CopiesRight (behindHeader b') (optArea b') := by
  have hacc : Accepted anyRouter
      (Buf.of (fixedHeader 8 ++ [68, 12, 5, 0, 0, 0, 0, 0, 0, 0, 0, 0])) _ := .inl rfl
  obtain ⟨hright, hlow, -⟩ :=
    ip_optcopy_right_iff anyRouter ⟨0, fun _ => 0⟩ _ _ (by decide +kernel) hacc
  exact ⟨_, hacc, hright.mpr (hlow (by decide +kernel))⟩

/-- A stamp of the first hours of the day, for a pointer of 2, has the length 0 in its first octet:
`ip_optcopy` does not return. -/
theorem ip_optcopy_stuck :
    ∃ b', Accepted anyRouter (Buf.of (fixedHeader 7 ++ [68, 8, 2, 0, 0, 0, 0, 0])) b' ∧
      ipOptcopy (behindHeader b') (optArea b') = none ∧
      ¬ CopiesRight (behindHeader b') (optArea b') := by
  have hstuck : ∀ {beyond opts}, ipOptcopy beyond opts = none → ¬ CopiesRight beyond opts := by
    rintro beyond opts hnone ⟨out, hout, -⟩
    rw [hnone] at hout
    cases hout
  have hnone : ipOptcopy (behindHeader (optionsRun anyRouter ⟨0, fun _ => 0⟩
      (Buf.of (fixedHeader 7 ++ [68, 8, 2, 0, 0, 0, 0, 0]))).buf)
      (optArea (optionsRun anyRouter ⟨0, fun _ => 0⟩
        (Buf.of (fixedHeader 7 ++ [68, 8, 2, 0, 0, 0, 0, 0]))).buf) = none := by
    decide +kernel
  exact ⟨_, .inl rfl, hnone, hstuck hnone⟩

end VxWorks.Netinet
