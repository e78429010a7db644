import Mathlib.Data.List.Basic
import Mathlib.Data.List.Nodup
import Mathlib.Data.List.Count
import VxWorks.Lib.Run
import VxWorks.Usb.TargPipes

/-!
# No endpoint serves two pipes

The invariant counts: an endpoint in use belongs to one linked pipe and an endpoint
that is not in use to none, so linking a pipe over free endpoints and unlinking one
with its marks are the two steps that need an argument. The handle table goes along,
since it is the handles that lead `usbTargPipeDestroy` and `usbTargTcdDetach` to what
they destroy, and a failed call must give its handle back.

It is kept by every call that has a live channel, a place for its result and, for a
control pipe, a number that is not in use for IN: what `usbTargPipeCreate` does not
check, or checks and forgets.
-/

namespace VxWorks.Usb

open VxWorks.Lib

/-! ## Marks -/

section

variable {ch ch' : Channel} {p : Pipe} {i k : Nat}

theorem Channel.use_setUse (u : Option (UInt16 × UInt16)) (hi : i < ch.endpoints.length) :
    (ch.setUse i u).use k = if k = i then u else ch.use k := by
  unfold Channel.use Channel.setUse
  by_cases hk : k = i
  · subst hk
    simp [List.getElem?_eq_getElem hi]
  · rw [if_neg hk]
    simp only [List.getElem?_modify_ne _ _ (Ne.symm hk)]

@[simp] theorem Channel.setUse_pipes (u : Option (UInt16 × UInt16)) :
    (ch.setUse i u).pipes = ch.pipes := rfl

@[simp] theorem Channel.setUse_targChannel (u : Option (UInt16 × UInt16)) :
    (ch.setUse i u).targChannel = ch.targChannel := rfl

@[simp] theorem Channel.length_setUse (u : Option (UInt16 × UInt16)) :
    (ch.setUse i u).endpoints.length = ch.endpoints.length := by simp [Channel.setUse]

@[simp] theorem Channel.release_pipes (e : Option Nat) : (ch.release e).pipes = ch.pipes := by
  cases e <;> rfl

@[simp] theorem Channel.release_targChannel (e : Option Nat) :
    (ch.release e).targChannel = ch.targChannel := by
  cases e <;> rfl

theorem Channel.use_release (e : Option Nat) :
    (ch.release e).use k = if e = some k then none else ch.use k := by
  cases e with
  | none => simp [Channel.release]
  | some i =>
      by_cases hi : i < ch.endpoints.length
      · rw [Channel.release, Channel.use_setUse none hi]
        simp only [Option.some.injEq, eq_comm]
      · have hsame : ch.release (some i) = ch := by
          have hnone : ch.endpoints.length ≤ i := Nat.le_of_not_lt hi
          simp [Channel.release, Channel.setUse, List.modify_eq_self hnone]
        have hout : ch.use i = none := by
          simp [Channel.use, List.getElem?_eq_none (Nat.le_of_not_lt hi)]
        rw [hsame]
        by_cases hk : i = k
        · subst hk
          simp [hout]
        · simp [hk]

theorem Channel.mem_of_use {u : UInt16 × UInt16} (h : ch.use k = some u) :
    ∃ e ∈ ch.endpoints, e.inUse = some u := by
  obtain ⟨e, he, hu⟩ := Option.bind_eq_some_iff.mp h
  exact ⟨e, List.mem_of_getElem? he, hu⟩

/-- An endpoint that is marked and then released is as before. -/
theorem Channel.release_setUse (u : Option (UInt16 × UInt16)) (hfree : ch.use i = none) :
    (ch.setUse i u).release (some i) = ch := by
  simp only [Channel.release, Channel.setUse, List.modify_modify_eq]
  have hid : ch.endpoints.modify i
      ((fun e => { e with inUse := none }) ∘ fun e => { e with inUse := u }) = ch.endpoints := by
    apply List.ext_getElem?
    intro k
    rw [List.getElem?_modify]
    by_cases hk : i = k
    · subst hk
      cases he : ch.endpoints[i]? with
      | none => rfl
      | some e =>
          have hnone : e.inUse = none := by simpa [Channel.use, he] using hfree
          cases e
          simp_all
    · cases ch.endpoints[k]? <;> simp [hk]
  rw [hid]

/-! ## The checks -/

theorem passes_of_bind {ε α β : Type} {x : Except ε α} {f : α → Except ε β} {b : β}
    (h : x >>= f = .ok b) : ∃ a, x = .ok a ∧ f a = .ok b := by
  cases x with
  | error _ => cases h
  | ok a => exact ⟨a, rfl, h⟩

theorem passes_or_error {ε α β : Type} {x : Except ε α} {f : α → Except ε β} {err : ε}
    (h : x >>= f = .error err) : x = .error err ∨ ∃ a, x = .ok a ∧ f a = .error err := by
  cases x with
  | error _ =>
      cases h
      exact .inl rfl
  | ok a => exact .inr ⟨a, rfl, h⟩

theorem supports_free {e : EndpointInfo} {transferType direction : UInt16}
    (h : e.supports transferType direction = .ok) : e.inUse = none := by
  rw [EndpointInfo.supports] at h
  split at h
  · cases h
  · rename_i hfree
    exact Decidable.not_not.mp hfree

theorem validateEndpoint_free {endpointId transferType direction : UInt16}
    (h : validateEndpoint ch endpointId transferType direction = .ok i) :
    i < ch.endpoints.length ∧ ch.use i = none := by
  unfold validateEndpoint at h
  split at h
  · cases h
  · rename_i j hj
    split at h
    · cases h
    · rename_i e he
      split at h
      · rename_i hs
        obtain rfl := Except.ok.inj h
        refine ⟨(List.getElem?_eq_some_iff.mp he).1, ?_⟩
        simp [Channel.use, he, supports_free hs]
      · cases h

/-- What the checks have found when they pass. -/
structure Checked (ch : Channel) (args : PipeArgs) (i : Nat) (j : Option Nat) : Prop where
  bound : i < ch.endpoints.length
  free : ch.use i = none
  second : ∀ k, j = some k →
    args.transferType = usbXfrtypeControl ∧ k < ch.endpoints.length ∧ ch.use k = none
  num : ∀ k, ch.use k ≠ some (args.firstDirection, args.endpointNum)

theorem validateEndpoint_error {endpointId transferType direction : UInt16} {status : TargStatus}
    (h : validateEndpoint ch endpointId transferType direction = .error status) :
    status ≠ .ok := by
  unfold validateEndpoint at h
  split at h
  · obtain rfl := Except.error.inj h
    simp
  · split at h
    · obtain rfl := Except.error.inj h
      simp
    · split at h
      · cases h
      · rename_i hne
        obtain rfl := Except.error.inj h
        exact hne

theorem validateArgs_error {args : PipeArgs} {status : TargStatus}
    (h : validateArgs ch args = .error status) : status ≠ .ok := by
  have hends : ∀ st, validateEndpoints ch args = .error st → st ≠ .ok := by
    intro st hst
    rw [validateEndpoints] at hst
    split at hst
    · rcases passes_or_error hst with hst | ⟨a, -, hst⟩
      · exact validateEndpoint_error hst
      · rcases passes_or_error hst with hst | ⟨b, -, hst⟩
        · exact validateEndpoint_error hst
        · cases hst
    · rcases passes_or_error hst with hst | ⟨a, -, hst⟩
      · exact validateEndpoint_error hst
      · cases hst
  rw [validateArgs] at h
  rcases passes_or_error h with h | ⟨r, -, h⟩
  · exact hends status h
  · rcases passes_or_error h with h | ⟨r, -, h⟩
    · rw [validateNumber] at h
      split at h
      · obtain rfl := Except.error.inj h
        simp
      · split at h
        · obtain rfl := Except.error.inj h
          simp
        · cases h
    · cases h

theorem validateEndpoints_free {args : PipeArgs} {j : Option Nat}
    (h : validateEndpoints ch args = .ok (i, j)) :
    (i < ch.endpoints.length ∧ ch.use i = none) ∧
      ∀ k, j = some k →
        args.transferType = usbXfrtypeControl ∧ k < ch.endpoints.length ∧ ch.use k = none := by
  rw [validateEndpoints] at h
  split at h
  · rename_i hctl
    obtain ⟨a, ha, h⟩ := passes_of_bind h
    obtain ⟨b, hb, h⟩ := passes_of_bind h
    obtain ⟨rfl, rfl⟩ : a = i ∧ some b = j := by simpa [pure, Except.pure] using h
    refine ⟨validateEndpoint_free ha, ?_⟩
    intro k hk
    obtain rfl := Option.some.inj hk
    exact ⟨hctl, validateEndpoint_free hb⟩
  · obtain ⟨a, ha, h⟩ := passes_of_bind h
    obtain ⟨rfl, rfl⟩ : a = i ∧ none = j := by simpa [pure, Except.pure] using h
    exact ⟨validateEndpoint_free ha, fun k hk => by cases hk⟩

theorem validateNumber_free {args : PipeArgs} (h : validateNumber ch args = .ok ()) :
    ch.use k ≠ some (args.firstDirection, args.endpointNum) := by
  rw [validateNumber] at h
  split at h
  · cases h
  · split at h
    · cases h
    · rename_i hunused
      exact fun hk => hunused (ch.mem_of_use hk)

theorem validateArgs_checked {args : PipeArgs} {j : Option Nat}
    (h : validateArgs ch args = .ok (i, j)) : Checked ch args i j := by
  rw [validateArgs] at h
  obtain ⟨r, hr, h⟩ := passes_of_bind h
  obtain ⟨⟨⟩, hn, h⟩ := passes_of_bind h
  obtain rfl := Except.ok.inj h
  obtain ⟨⟨hbound, hfree⟩, hsecond⟩ := validateEndpoints_free hr
  exact ⟨hbound, hfree, hsecond, fun k => validateNumber_free hn⟩

end

/-! ## The invariant -/

/-- What holds of a channel between two calls. An endpoint that is not in use belongs to
no pipe. -/
structure Channel.Ok (ch : Channel) : Prop where
  owner : ∀ i, ch.pipes.countP (·.owns i) = if ch.use i = none then 0 else 1
  distinct : ∀ i j u, ch.use i = some u → ch.use j = some u → i = j
  handles : (ch.pipes.map Pipe.pipeHandle).Nodup

theorem Channel.Ok.exclusive {ch : Channel} (hok : ch.Ok) : ch.Exclusive := by
  refine ⟨?_, hok.distinct⟩
  intro i u hu
  rw [hok.owner i, hu]
  rfl

section

variable {ch ch' : Channel} {p : Pipe}

/-- A pipe is linked whose endpoints were free and are marked now. -/
theorem Channel.Ok.link (hok : ch.Ok) (hpipes : ch'.pipes = ch.pipes ++ [p])
    (hfree : ∀ k, p.owns k → ch.use k = none) (hmark : ∀ k, p.owns k → ch'.use k ≠ none)
    (hkeep : ∀ k, p.owns k = false → ch'.use k = ch.use k)
    (hdist : ∀ i j u, ch'.use i = some u → ch'.use j = some u → i = j)
    (hfresh : p.pipeHandle ∉ ch.pipes.map Pipe.pipeHandle) : ch'.Ok := by
  refine ⟨?_, hdist, ?_⟩
  · intro k
    rw [hpipes, List.countP_append, List.countP_singleton, hok.owner k]
    cases howns : p.owns k with
    | false => simp [hkeep k howns]
    | true => simp [hfree k howns, hmark k howns]
  · rw [hpipes, List.map_append, List.nodup_append]
    refine ⟨hok.handles, by simp, fun a ha b hb => ?_⟩
    obtain rfl : b = p.pipeHandle := by simpa using hb
    exact fun h => hfresh (h ▸ ha)

/-- A pipe is unlinked and its endpoints are released. -/
theorem Channel.Ok.unlink (hok : ch.Ok) (hp : p ∈ ch.pipes)
    (hpipes : ch'.pipes = ch.pipes.erase p)
    (huse : ∀ k, ch'.use k = if p.owns k then none else ch.use k) : ch'.Ok := by
  refine ⟨?_, ?_, ?_⟩
  · intro k
    have hperm := (List.perm_cons_erase hp).countP_eq (·.owns k)
    rw [List.countP_cons, hok.owner k] at hperm
    rw [hpipes, huse k]
    cases howns : p.owns k with
    | false =>
        simp only [howns, Bool.false_eq_true, if_false, Nat.add_zero] at hperm ⊢
        exact hperm.symm
    | true =>
        simp only [howns, if_true] at hperm ⊢
        split at hperm <;> omega
  · intro i j u hi hj
    rw [huse] at hi hj
    split at hi
    · cases hi
    · split at hj
      · cases hj
      · exact hok.distinct i j u hi hj
  · rw [hpipes]
    exact hok.handles.sublist (List.erase_sublist.map _)

end

/-- The handles are those of the channels and of their pipes, and every channel is well. -/
structure Targ.Ok (t : Targ) : Prop where
  channels : ∀ c ch, t.channels c = some ch → ch.Ok
  tcd : ∀ c ch, t.channels c = some ch → t.handles ch.targChannel = some (.tcd c)
  ofTcd : ∀ h c, t.handles h = some (.tcd c) → ∃ ch, t.channels c = some ch ∧ ch.targChannel = h
  pipe : ∀ c ch, t.channels c = some ch → ∀ p ∈ ch.pipes, t.handles p.pipeHandle = some (.pipe c)
  ofPipe : ∀ h c, t.handles h = some (.pipe c) →
    ∃ ch, t.channels c = some ch ∧ ∃ p ∈ ch.pipes, p.pipeHandle = h
  null : t.handles 0 = none

section

variable {t : Targ} {c h : Nat} {ch ch' : Channel} {p : Pipe}

@[simp] theorem Targ.setHandle_channels (target : Option HandleTarget) :
    (t.setHandle h target).channels = t.channels := rfl

@[simp] theorem Targ.setChannel_handles (o : Option Channel) :
    (t.setChannel c o).handles = t.handles := rfl

theorem Targ.setHandle_apply (target : Option HandleTarget) (k : Nat) :
    (t.setHandle h target).handles k = if k = h then target else t.handles k :=
  Function.update_apply ..

theorem Targ.setChannel_apply (o : Option Channel) (k : Nat) :
    (t.setChannel c o).channels k = if k = c then o else t.channels k :=
  Function.update_apply ..

theorem Targ.Ok.link (hok : t.Ok) (hc : t.channels c = some ch) (hch : ch'.Ok)
    (htarg : ch'.targChannel = ch.targChannel) (hpipes : ch'.pipes = ch.pipes ++ [p])
    (h0 : p.pipeHandle ≠ 0) (hfree : t.handles p.pipeHandle = none) :
    ((t.setHandle p.pipeHandle (some (.pipe c))).setChannel c (some ch')).Ok := by
  have hne : ∀ k target, t.handles k = some target → k ≠ p.pipeHandle := by
    rintro k target hk rfl
    exact absurd hk (by simp [hfree])
  constructor <;>
    simp only [Targ.setChannel_apply, Targ.setChannel_handles, Targ.setHandle_channels,
      Targ.setHandle_apply]
  · grind [hok.channels]
  · grind [hok.tcd]
  · grind [hok.ofTcd]
  · grind [hok.pipe]
  · grind [hok.ofPipe]
  · grind [hok.null]

theorem Targ.Ok.unlink (hok : t.Ok) (hc : t.channels c = some ch) (hp : p ∈ ch.pipes)
    (hch : ch'.Ok) (htarg : ch'.targChannel = ch.targChannel)
    (hpipes : ch'.pipes = ch.pipes.erase p) :
    ((t.setChannel c (some ch')).setHandle p.pipeHandle none).Ok := by
  have hnodup : ch.pipes.Nodup := (hok.channels c ch hc).handles.of_map _
  have hmem : ∀ q, q ∈ ch'.pipes ↔ q ≠ p ∧ q ∈ ch.pipes := by
    intro q
    rw [hpipes, hnodup.mem_erase_iff]
  have hother : ∀ q ∈ ch.pipes, q ≠ p → q.pipeHandle ≠ p.pipeHandle := by
    intro q hq hne heq
    exact hne (List.inj_on_of_nodup_map (hok.channels c ch hc).handles hq hp heq)
  have hpipe := hok.pipe c ch hc p hp
  constructor <;>
    simp only [Targ.setChannel_apply, Targ.setChannel_handles, Targ.setHandle_channels,
      Targ.setHandle_apply]
  · grind [hok.channels]
  · grind [hok.tcd]
  · grind [hok.ofTcd]
  · grind [hok.pipe]
  · grind [hok.ofPipe]
  · grind [hok.null]

/-- `destroyPipe` on a linked pipe. -/
theorem destroyPipe_ok {cancel : Bool} (hok : t.Ok) (hc : t.channels c = some ch)
    (hp : p ∈ ch.pipes) (hcancel : p.busy = true → cancel = true) :
    ∃ t' ch', destroyPipe cancel c ch p t = some t' ∧ t'.Ok ∧ t'.channels c = some ch' ∧
      ch'.pipes = ch.pipes.erase p ∧ ch'.targChannel = ch.targChannel := by
  have hgo : ¬ (p.busy = true ∧ cancel = false) := by
    rintro ⟨hbusy, hno⟩
    exact absurd (hcancel hbusy) (by simp [hno])
  let ch₁ : Channel := { ch with pipes := ch.pipes.erase p }
  let ch' := (ch₁.release p.endpoint).release p.endpoint2
  have hpipes : ch'.pipes = ch.pipes.erase p := by simp [ch', ch₁]
  have htarg : ch'.targChannel = ch.targChannel := by simp [ch', ch₁]
  have huse : ∀ k, ch'.use k = if p.owns k then none else ch.use k := by
    intro k
    simp only [ch', Channel.use_release, Pipe.owns, Bool.or_eq_true, beq_iff_eq]
    have hsame : ch₁.use k = ch.use k := rfl
    grind
  have hch : ch'.Ok := (hok.channels c ch hc).unlink hp hpipes huse
  refine ⟨_, ch', if_neg hgo, hok.unlink hc hp hch htarg hpipes, ?_, hpipes, htarg⟩
  simp [Targ.setChannel_apply, ch', ch₁]

/-! ## Creation -/

theorem Targ.setChannel_self (hc : t.channels c = some ch) : t.setChannel c (some ch) = t := by
  rw [Targ.setChannel, ← hc, Function.update_eq_self]

theorem Targ.setHandle_self (hh : t.handles h = none) : t.setHandle h none = t := by
  rw [Targ.setHandle, ← hh, Function.update_eq_self]

theorem Targ.setHandle_undo (hh : t.handles h = none) (target : Option HandleTarget) :
    (t.setHandle h target).setHandle h none = t := by
  have : (t.setHandle h target).setHandle h none = t.setHandle h none := by simp [Targ.setHandle]
  rw [this, Targ.setHandle_self hh]

/-- `destroyPipe` on a pipe that was never linked takes the endpoint and the handle back. -/
theorem destroyPipe_new {s : Targ} {e : Option Nat} (hc : t.channels c = some ch)
    (hs : s.setHandle h none = t) (hnot : ∀ p ∈ ch.pipes, p.pipeHandle ≠ h)
    (hrel : ch'.release e = ch) : destroyPipe true c ch' ⟨h, e, none, false⟩ s = some t := by
  have hpipes : ch'.pipes = ch.pipes := by rw [← hrel, Channel.release_pipes]
  have herase : ch'.pipes.erase ⟨h, e, none, false⟩ = ch'.pipes := by
    apply List.erase_of_not_mem
    intro hmem
    exact hnot _ (hpipes ▸ hmem) rfl
  have hgo : ¬ (false = true ∧ true = false) := by simp
  rw [destroyPipe, if_neg hgo, herase]
  simp only [Channel.release] at hrel ⊢
  have hswap : (s.setChannel c (some ch)).setHandle h none =
      (s.setHandle h none).setChannel c (some ch) := rfl
  cases e <;> simp only [hrel, hswap, hs, Targ.setChannel_self hc]

/-- The channel the call is about, with the number free in the directions it will use. -/
structure CreateGood (t : Targ) (args : PipeArgs) (c : Nat) (ch : Channel) : Prop where
  result : args.pPipeHandle = true
  handle : t.handles args.targChannel = some (.tcd c)
  channel : t.channels c = some ch
  num : args.transferType = usbXfrtypeControl →
    ∀ k, ch.use k ≠ some (usbDirIn, args.endpointNum)

/-- What a call of `usbTargPipeCreate` has come to. -/
structure Created (t : Targ) (c : Nat) (ch : Channel) (status : TargStatus) (h : Option Nat)
    (t' : Targ) : Prop where
  ok : t'.Ok
  failed : status ≠ .ok → t' = t
  handle : h = none → status ≠ .ok
  channel : ∃ ch', t'.channels c = some ch' ∧ ∀ p ∈ ch'.pipes, p ∈ ch.pipes ∨ p.busy = false

theorem created_failed {status : TargStatus} (hok : t.Ok) (hc : t.channels c = some ch)
    (hs : status ≠ .ok) : Created t c ch status none t :=
  ⟨hok, fun _ => rfl, fun _ => hs, ch, hc, fun _ hp => .inl hp⟩

/-- The new pipe has its endpoints, and is linked. -/
theorem created_linked (hok : t.Ok) (hc : t.channels c = some ch) (h0 : h ≠ 0)
    (hh : t.handles h = none) (hp : p.pipeHandle = h) (hbusy : p.busy = false)
    (htarg : ch'.targChannel = ch.targChannel) (hpipes : ch'.pipes = ch.pipes ++ [p])
    (hfree : ∀ k, p.owns k → ch.use k = none) (hmark : ∀ k, p.owns k → ch'.use k ≠ none)
    (hkeep : ∀ k, p.owns k = false → ch'.use k = ch.use k)
    (hdist : ∀ i j u, ch'.use i = some u → ch'.use j = some u → i = j) :
    Created t c ch .ok (some h)
      ((t.setHandle h (some (.pipe c))).setChannel c (some ch')) := by
  subst hp
  have hfresh : p.pipeHandle ∉ ch.pipes.map Pipe.pipeHandle := by
    intro hmem
    obtain ⟨q, hq, heq⟩ := List.mem_map.mp hmem
    exact absurd (hok.pipe c ch hc q hq) (by simp [heq, hh])
  have hch : ch'.Ok := (hok.channels c ch hc).link hpipes hfree hmark hkeep hdist hfresh
  refine ⟨hok.link hc hch htarg hpipes h0 hh, fun hne => absurd rfl hne, by simp, ch',
    by simp [Targ.setChannel_apply], fun q hq => ?_⟩
  rw [hpipes, List.mem_append, List.mem_singleton] at hq
  rcases hq with hq | rfl
  · exact .inl hq
  · exact .inr hbusy

theorem newHandle_spec {handle : Option Nat} (hh : t.newHandle handle = some h) :
    h ≠ 0 ∧ t.handles h = none := by
  have := (Option.filter_eq_some_iff.mp hh).2
  simpa using this

theorem pTcd_good {args : PipeArgs} (hgood : CreateGood t args c ch) (stack : Option Nat) :
    t.pTcd args stack = some c := by
  simp [Targ.pTcd, hgood.result, hgood.handle]

/-- A pipe with one endpoint. -/
theorem created_one {args : PipeArgs} {i : Nat} (hok : t.Ok) (hc : t.channels c = some ch)
    (hck : Checked ch args i none) (h0 : h ≠ 0) (hh : t.handles h = none)
    (hpipes : ch'.pipes = ch.pipes ++ [⟨h, some i, none, false⟩])
    (htarg : ch'.targChannel = ch.targChannel)
    (huse : ∀ k, ch'.use k =
      if k = i then some (args.firstDirection, args.endpointNum) else ch.use k) :
    Created t c ch .ok (some h) ((t.setHandle h (some (.pipe c))).setChannel c (some ch')) := by
  have howns : ∀ k, (⟨h, some i, none, false⟩ : Pipe).owns k = true ↔ i = k := by
    intro k
    simp [Pipe.owns]
  refine created_linked hok hc h0 hh rfl rfl htarg hpipes ?_ ?_ ?_ ?_
  · intro k hk
    rw [← (howns k).mp hk, hck.free]
  · intro k hk
    simp [huse, ← (howns k).mp hk]
  · intro k hk
    have hne : ¬ i = k := fun heq => absurd ((howns k).mpr heq) (by simp [hk])
    rw [huse, if_neg (Ne.symm hne)]
  · have hdist := (hok.channels c ch hc).distinct
    have hnum := hck.num
    intro a b u ha hb
    rw [huse] at ha hb
    grind

/-- A control pipe. -/
theorem created_two {args : PipeArgs} {i j : Nat} (hok : t.Ok) (hgood : CreateGood t args c ch)
    (hck : Checked ch args i (some j)) (h0 : h ≠ 0) (hh : t.handles h = none)
    (hpipes : ch'.pipes = ch.pipes ++ [⟨h, some i, some j, false⟩])
    (htarg : ch'.targChannel = ch.targChannel)
    (huse : ∀ k, ch'.use k =
      if k = j then some (usbDirIn, args.endpointNum)
      else if k = i then some (args.firstDirection, args.endpointNum) else ch.use k) :
    Created t c ch .ok (some h) ((t.setHandle h (some (.pipe c))).setChannel c (some ch')) := by
  obtain ⟨hctl, -, hfree2⟩ := hck.second j rfl
  have hdir : args.firstDirection ≠ usbDirIn := by
    rw [PipeArgs.firstDirection, if_pos hctl]
    decide
  have howns : ∀ k, (⟨h, some i, some j, false⟩ : Pipe).owns k = true ↔ i = k ∨ j = k := by
    intro k
    simp [Pipe.owns]
  refine created_linked hok hgood.channel h0 hh rfl rfl htarg hpipes ?_ ?_ ?_ ?_
  · intro k hk
    rcases (howns k).mp hk with rfl | rfl
    · exact hck.free
    · exact hfree2
  · intro k hk
    rw [huse]
    rcases (howns k).mp hk with rfl | rfl
    · split <;> simp
    · simp
  · intro k hk
    have hne : ¬ (i = k ∨ j = k) := fun heq => absurd ((howns k).mpr heq) (by simp [hk])
    rw [huse, if_neg (fun heq => hne (.inr heq.symm)), if_neg (fun heq => hne (.inl heq.symm))]
  · have hdist := (hok.channels c ch hgood.channel).distinct
    have hnum := hck.num
    have hnum2 := hgood.num hctl
    intro a b u ha hb
    rw [huse] at ha hb
    grind

theorem assignEndpoints_created {args : PipeArgs} {i : Nat} {j : Option Nat} (hok : t.Ok)
    (hgood : CreateGood t args c ch) (hck : Checked ch args i j) (h0 : h ≠ 0)
    (hh : t.handles h = none) (env : PipeAnswers) :
    ∃ status r t',
      assignEndpoints args env c ch i j h (t.setHandle h (some (.pipe c))) = some (status, r, t') ∧
      Created t c ch status r t' := by
  have hc := hgood.channel
  have hnot : ∀ p ∈ ch.pipes, p.pipeHandle ≠ h := by
    intro p hp heq
    exact absurd (hok.pipe c ch hc p hp) (by simp [heq, hh])
  have hundo := Targ.setHandle_undo hh (some (.pipe c))
  unfold assignEndpoints
  by_cases hassign : env.assign = false
  · rw [if_pos hassign, destroyPipe_new hc hundo hnot (rfl : ch.release none = ch)]
    exact ⟨_, _, t, rfl, created_failed hok hc (by simp)⟩
  rw [if_neg hassign]
  have hresult : ¬ args.pPipeHandle = false := by simp [hgood.result]
  cases j with
  | none =>
      simp only [if_neg hresult]
      refine ⟨_, _, _, rfl, created_one hok hc hck h0 hh rfl rfl ?_⟩
      intro k
      exact Channel.use_setUse _ hck.bound
  | some j =>
      simp only []
      by_cases hassign2 : env.assign2 = false
      · rw [if_pos hassign2, destroyPipe_new hc hundo hnot (Channel.release_setUse _ hck.free)]
        exact ⟨_, _, t, rfl, created_failed hok hc (by simp)⟩
      rw [if_neg hassign2, if_neg hresult]
      obtain ⟨-, hbound, -⟩ := hck.second j rfl
      refine ⟨_, _, _, rfl, created_two hok hgood hck h0 hh rfl rfl ?_⟩
      intro k
      rw [← Channel.use_setUse _ hck.bound]
      exact Channel.use_setUse _ (by rwa [Channel.length_setUse])

/-- A call with a live channel, a result pointer and, for a control pipe, a number that
is not in use for IN either. -/
theorem usbTargPipeCreate_created {args : PipeArgs} (hok : t.Ok) (hgood : CreateGood t args c ch)
    (env : PipeAnswers) :
    ∃ status r t', usbTargPipeCreate args env t = some (status, r, t') ∧
      Created t c ch status r t' := by
  have hc := hgood.channel
  unfold usbTargPipeCreate
  simp only [pTcd_good hgood, hc, Option.bind_eq_bind, Option.bind_some]
  cases hv : validateArgs ch args with
  | error status =>
      exact ⟨status, none, t, rfl, created_failed hok hc (validateArgs_error hv)⟩
  | ok ends =>
      obtain ⟨i, j⟩ := ends
      simp only []
      by_cases halloc : env.calloc = false
      · rw [if_pos halloc]
        exact ⟨_, _, t, rfl, created_failed hok hc (by simp)⟩
      rw [if_neg halloc]
      cases hh : t.newHandle env.handle with
      | none =>
          have hnot : ∀ p ∈ ch.pipes, p.pipeHandle ≠ 0 := by
            intro p hp hz
            exact absurd (hok.pipe c ch hc p hp) (by simp [hz, hok.null])
          simp only [destroyPipe_new hc (Targ.setHandle_self hok.null) hnot
            (rfl : ch.release none = ch), Option.bind_some]
          exact ⟨_, _, t, rfl, created_failed hok hc (by simp)⟩
      | some h =>
          obtain ⟨h0, hfree⟩ := newHandle_spec hh
          exact assignEndpoints_created hok hgood (validateArgs_checked hv) h0 hfree env

/-! ## Destruction -/

theorem destroyPipes_ok {cancel : Bool} (ps : List Pipe) :
    ∀ {t : Targ} {ch : Channel}, t.Ok → t.channels c = some ch → ch.pipes = ps →
      (∀ p ∈ ps, p.busy = true → cancel = true) →
      ∃ t' ch', destroyPipes cancel c ps t = some t' ∧ t'.Ok ∧ t'.channels c = some ch' ∧
        ch'.pipes = [] ∧ ch'.targChannel = ch.targChannel := by
  induction ps with
  | nil =>
      intro t ch hok hc hps _
      exact ⟨t, ch, rfl, hok, hc, hps, rfl⟩
  | cons p ps ih =>
      intro t ch hok hc hps hcancel
      have hp : p ∈ ch.pipes := by simp [hps]
      obtain ⟨t₁, ch₁, hd, hok₁, hc₁, hps₁, htarg₁⟩ :=
        destroyPipe_ok hok hc hp (hcancel p (List.mem_cons_self ..))
      have hrest : ch₁.pipes = ps := by rw [hps₁, hps, List.erase_cons_head]
      obtain ⟨t₂, ch₂, hds, hok₂, hc₂, hps₂, htarg₂⟩ :=
        ih hok₁ hc₁ hrest fun q hq => hcancel q (List.mem_cons_of_mem _ hq)
      refine ⟨t₂, ch₂, ?_, hok₂, hc₂, hps₂, htarg₂.trans htarg₁⟩
      simp [destroyPipes, hc, hd, hds]

/-- A channel without pipes goes, and its handle with it. -/
theorem Targ.Ok.remove (hok : t.Ok) (hc : t.channels c = some ch) (hps : ch.pipes = []) :
    ((t.setHandle ch.targChannel none).setChannel c none).Ok := by
  have hself := hok.tcd c ch hc
  constructor <;>
    simp only [Targ.setChannel_apply, Targ.setChannel_handles, Targ.setHandle_channels,
      Targ.setHandle_apply]
  · grind [hok.channels]
  · grind [hok.tcd]
  · grind [hok.ofTcd]
  · grind [hok.pipe]
  · grind [hok.ofPipe]
  · grind [hok.null]

theorem destroyTcd_ok (cancel : Bool) (hok : t.Ok) (hc : t.channels c = some ch)
    (hcancel : ∀ p ∈ ch.pipes, p.busy = true → cancel = true) :
    ∃ t', destroyTcd cancel c t = some t' ∧ t'.Ok := by
  obtain ⟨t₁, ch₁, hd, hok₁, hc₁, hps₁, htarg⟩ := destroyPipes_ok ch.pipes hok hc rfl hcancel
  refine ⟨_, ?_, hok₁.remove hc₁ hps₁⟩
  simp [destroyTcd, hc, hd, htarg]

/-! ## Attachment -/

theorem Targ.Ok.add (hok : t.Ok) (hc : t.channels c = none) (h0 : h ≠ 0)
    (hh : t.handles h = none) (hch : ch.Ok) (htarg : ch.targChannel = h) (hps : ch.pipes = []) :
    ((t.setHandle h (some (.tcd c))).setChannel c (some ch)).Ok := by
  constructor <;>
    simp only [Targ.setChannel_apply, Targ.setChannel_handles, Targ.setHandle_channels,
      Targ.setHandle_apply]
  · grind [hok.channels]
  · grind [hok.tcd]
  · grind [hok.ofTcd]
  · grind [hok.pipe]
  · grind [hok.ofPipe]
  · grind [hok.null]

theorem listen_handles (controlPipe : Nat) (ps : List Pipe) :
    (ps.map (Pipe.listen controlPipe)).map Pipe.pipeHandle = ps.map Pipe.pipeHandle :=
  List.map_map

theorem Channel.Ok.listen (hok : ch.Ok) (controlPipe : Nat) :
    Channel.Ok { ch with pipes := ch.pipes.map (Pipe.listen controlPipe) } := by
  refine ⟨?_, hok.distinct, ?_⟩
  · intro i
    refine Eq.trans ?_ (hok.owner i)
    exact List.countP_map
  · exact (listen_handles controlPipe ch.pipes).symm ▸ hok.handles

theorem Targ.Ok.listen (hok : t.Ok) (hc : t.channels c = some ch) (controlPipe : Nat) :
    (t.listen c ch controlPipe).Ok := by
  have hch := (hok.channels c ch hc).listen controlPipe
  have hmem : ∀ q, q ∈ ch.pipes.map (Pipe.listen controlPipe) →
      t.handles q.pipeHandle = some (.pipe c) := by
    intro q hq
    obtain ⟨p, hp, rfl⟩ := List.mem_map.mp hq
    exact hok.pipe c ch hc p hp
  constructor <;>
    simp only [Targ.listen, Targ.setChannel_apply, Targ.setChannel_handles]
  · grind [hok.channels]
  · grind [hok.tcd]
  · grind [hok.ofTcd]
  · grind [hok.pipe]
  · intro h k hk
    obtain ⟨ch₀, hch₀, p, hp, rfl⟩ := hok.ofPipe h k hk
    by_cases hkc : k = c
    · subst hkc
      obtain rfl := Option.some.inj (hc.symm.trans hch₀)
      exact ⟨_, if_pos rfl, _, List.mem_map_of_mem hp, rfl⟩
    · exact ⟨ch₀, by rw [if_neg hkc, hch₀], p, hp, rfl⟩
  · exact hok.null

theorem attachControlPipe_ok (env : AttachAnswers) (hok : t.Ok) (hc : t.channels c = some ch)
    (hh : t.handles h = some (.tcd c)) (hfree : ∀ k, ch.use k = none) (hps : ch.pipes = []) :
    ∃ status t' ch', attachControlPipe env c h ch.endpoints t = some (status, t') ∧ t'.Ok ∧
      t'.channels c = some ch' ∧
      (status ≠ .ok → ∀ p ∈ ch'.pipes, p.busy = true → env.submit = true ∧ env.app = false) := by
  unfold attachControlPipe
  split
  · rename_i out inn _ _
    have hgood : CreateGood t (controlPipeArgs h out inn) c ch :=
      ⟨rfl, hh, hc, fun _ k => by simp [hfree k]⟩
    obtain ⟨status, r, t₁, hcreate, hcreated⟩ := usbTargPipeCreate_created hok hgood env.pipe
    obtain ⟨ch₁, hc₁, hidle⟩ := hcreated.channel
    have hidle : ∀ p ∈ ch₁.pipes, p.busy = true → env.submit = true ∧ env.app = false := by
      intro p hp hbusy
      rcases hidle p hp with hold | hnew
      · simp [hps] at hold
      · simp [hbusy] at hnew
    simp only [hcreate, Option.bind_eq_bind, Option.bind_some]
    cases r with
    | none => exact ⟨status, t₁, ch₁, rfl, hcreated.ok, hc₁, fun _ => hidle⟩
    | some controlPipe =>
        simp only []
        by_cases hsubmit : env.submit = false
        · rw [if_pos hsubmit]
          exact ⟨_, t₁, ch₁, rfl, hcreated.ok, hc₁, fun _ => hidle⟩
        · rw [if_neg hsubmit, hc₁, Option.bind_some]
          have hlisten := hcreated.ok.listen hc₁ controlPipe
          have hself : (t₁.listen c ch₁ controlPipe).channels c = some _ :=
            Function.update_self ..
          by_cases happ : env.app = false
          · rw [if_pos happ]
            refine ⟨_, _, _, rfl, hlisten, hself, fun _ _ _ _ => ⟨?_, happ⟩⟩
            simpa using hsubmit
          · rw [if_neg happ]
            exact ⟨_, _, _, rfl, hlisten, hself, fun hne => absurd rfl hne⟩
  · exact ⟨_, t, ch, rfl, hok, hc, fun _ p hp => by simp [hps] at hp⟩

theorem exposedChannel_free (env : AttachAnswers) (h k : Nat) :
    (exposedChannel env h).use k = none := by
  simp only [exposedChannel, Channel.use, List.getElem?_map]
  cases (env.attach.getD [])[k]? <;> rfl

theorem exposedChannel_ok (env : AttachAnswers) (h : Nat) : (exposedChannel env h).Ok := by
  refine ⟨?_, ?_, List.nodup_nil⟩
  · intro k
    rw [if_pos (exposedChannel_free env h k)]
    rfl
  · intro i _ _ hi
    simp [exposedChannel_free] at hi

theorem usbTargTcdAttach_ok {env : AttachAnswers} (hok : t.Ok)
    (hhandle : env.args = true → ∀ c, t.newChannel env.calloc = some c →
      t.newHandle env.handle ≠ none)
    (hcancel : env.submit = true → env.app = false → env.cancel = true) :
    ∃ status r t', usbTargTcdAttach env t = some (status, r, t') ∧ t'.Ok := by
  unfold usbTargTcdAttach
  by_cases hargs : env.args = false
  · rw [if_pos hargs]
    exact ⟨_, _, t, rfl, hok⟩
  rw [if_neg hargs]
  cases hcalloc : t.newChannel env.calloc with
  | none => exact ⟨_, _, t, rfl, hok⟩
  | some c =>
      cases hnew : t.newHandle env.handle with
      | none => exact absurd hnew (hhandle (by simpa using hargs) c hcalloc)
      | some h =>
          obtain ⟨h0, hh⟩ := newHandle_spec hnew
          have hc : t.channels c = none := by
            simpa using (Option.filter_eq_some_iff.mp hcalloc).2
          let ch := exposedChannel env h
          let t₁ := (t.setHandle h (some (.tcd c))).setChannel c (some ch)
          have hok₁ : t₁.Ok := hok.add hc h0 hh (exposedChannel_ok env h) rfl rfl
          have hc₁ : t₁.channels c = some ch := Function.update_self ..
          have hh₁ : t₁.handles h = some (.tcd c) := Function.update_self ..
          obtain ⟨status, t₂, ch₂, hattach, hok₂, hc₂, hbusy⟩ :=
            attachControlPipe_ok env hok₁ hc₁ hh₁ (exposedChannel_free env h) rfl
          simp only [ch, t₁] at hattach
          simp only [hattach, Option.bind_eq_bind, Option.bind_some]
          by_cases hstatus : status = .ok
          · rw [if_pos hstatus]
            exact ⟨_, _, t₂, rfl, hok₂⟩
          · rw [if_neg hstatus]
            obtain ⟨t₃, hd, hok₃⟩ := destroyTcd_ok env.cancel hok₂ hc₂
              fun p hp hb => hcancel (hbusy hstatus p hp hb).1 (hbusy hstatus p hp hb).2
            rw [hd]
            exact ⟨_, _, t₃, rfl, hok₃⟩

end

/-! ## Runs -/

/-- The calls that keep endpoints exclusive. A pipe is asked for on a live channel, with
a result pointer, and a control pipe with a number that is not in use for IN; a channel
that gets memory gets a handle; and a driver that is asked to cancel a transfer does. -/
def KeepsExclusive (s : Option Targ) : TargOp → Prop
  | .attach env => ∀ t, s = some t →
      (env.args = true → ∀ c, t.newChannel env.calloc = some c → t.newHandle env.handle ≠ none) ∧
      (env.submit = true → env.app = false → env.cancel = true)
  | .create args _ => ∃ t c ch, s = some t ∧ CreateGood t args c ch
  | .destroy pipeHandle cancel => ∀ t c ch, s = some t → t.channels c = some ch →
      ∀ p ∈ ch.pipes, p.pipeHandle = pipeHandle → p.busy = true → cancel = true
  | .detach targChannel cancel => ∀ t c ch, s = some t → t.channels c = some ch →
      ch.targChannel = targChannel → ∀ p ∈ ch.pipes, p.busy = true → cancel = true

section

variable {t : Targ}

theorem usbTargPipeDestroy_ok {pipeHandle : Nat} {cancel : Bool} (hok : t.Ok)
    (hcancel : ∀ c ch, t.channels c = some ch →
      ∀ p ∈ ch.pipes, p.pipeHandle = pipeHandle → p.busy = true → cancel = true) :
    ∃ status t', usbTargPipeDestroy pipeHandle cancel t = some (status, t') ∧ t'.Ok := by
  unfold usbTargPipeDestroy
  split
  · rename_i c hh
    obtain ⟨ch, hc, p, hp, rfl⟩ := hok.ofPipe pipeHandle c hh
    obtain ⟨q, hq⟩ : ∃ q, ch.pipes.find? (fun q => q.pipeHandle == p.pipeHandle) = some q := by
      apply Option.isSome_iff_exists.mp
      rw [List.find?_isSome]
      exact ⟨p, hp, by simp⟩
    have hqmem : q ∈ ch.pipes := List.mem_of_find?_eq_some hq
    have hqh : q.pipeHandle = p.pipeHandle := by simpa using List.find?_some hq
    obtain ⟨t', -, hd, hok', -⟩ := destroyPipe_ok hok hc hqmem (hcancel c ch hc q hqmem hqh)
    refine ⟨.ok, t', ?_, hok'⟩
    simp [hc, hq, hd]
  · exact ⟨_, t, rfl, hok⟩

theorem usbTargTcdDetach_ok {targChannel : Nat} {cancel : Bool} (hok : t.Ok)
    (hcancel : ∀ c ch, t.channels c = some ch → ch.targChannel = targChannel →
      ∀ p ∈ ch.pipes, p.busy = true → cancel = true) :
    ∃ status t', usbTargTcdDetach targChannel cancel t = some (status, t') ∧ t'.Ok := by
  unfold usbTargTcdDetach
  split
  · rename_i c hh
    obtain ⟨ch, hc, htarg⟩ := hok.ofTcd targChannel c hh
    obtain ⟨t', hd, hok'⟩ := destroyTcd_ok cancel hok hc (hcancel c ch hc htarg)
    exact ⟨.ok, t', by simp [hd], hok'⟩
  · exact ⟨_, t, rfl, hok⟩

theorem targStep_ok {op : TargOp} (hok : t.Ok) (hkeep : KeepsExclusive (some t) op) :
    ∃ t', targStep (some t) op = some t' ∧ t'.Ok := by
  cases op with
  | attach env =>
      obtain ⟨hhandle, hcancel⟩ := hkeep t rfl
      obtain ⟨status, r, t', hcall, hok'⟩ := usbTargTcdAttach_ok hok hhandle hcancel
      exact ⟨t', by simp [targStep, hcall], hok'⟩
  | create args env =>
      obtain ⟨_, c, ch, heq, hgood⟩ := hkeep
      obtain rfl := Option.some.inj heq
      obtain ⟨status, r, t', hcall, hcreated⟩ := usbTargPipeCreate_created hok hgood env
      exact ⟨t', by simp [targStep, hcall], hcreated.ok⟩
  | destroy pipeHandle cancel =>
      obtain ⟨status, t', hcall, hok'⟩ :=
        usbTargPipeDestroy_ok hok fun c ch hc => hkeep t c ch rfl hc
      exact ⟨t', by simp [targStep, hcall], hok'⟩
  | detach targChannel cancel =>
      obtain ⟨status, t', hcall, hok'⟩ :=
        usbTargTcdDetach_ok hok fun c ch hc => hkeep t c ch rfl hc
      exact ⟨t', by simp [targStep, hcall], hok'⟩

theorem createLeaves_of_ok {op : TargOp} (hok : t.Ok) (hkeep : KeepsExclusive (some t) op) :
    CreateLeaves (some t) op := by
  cases op with
  | create args env =>
      obtain ⟨_, c, ch, heq, hgood⟩ := hkeep
      obtain rfl := Option.some.inj heq
      obtain ⟨status, r, t', hcall, hcreated⟩ := usbTargPipeCreate_created hok hgood env
      exact ⟨_, status, r, t', rfl, hcall, hcreated.failed⟩
  | attach env => trivial
  | destroy pipeHandle cancel => trivial
  | detach targChannel cancel => trivial

theorem Targ.initial_ok : Targ.initial.Ok := by
  constructor <;> simp [Targ.initial]

end

/-- In every run of such calls, whatever memory, handles, the driver and the application
refuse, endpoints stay exclusive and a failed `usbTargPipeCreate` changes nothing. -/
theorem endpoints_stay_exclusive (ops : List TargOp)
    (hg : Guarded targStep KeepsExclusive (some Targ.initial) ops) :
    Always targStep Exclusive (some Targ.initial) ops ∧
      ∀ pre op, pre ++ [op] <+: ops → CreateLeaves (run targStep (some Targ.initial) pre) op := by
  have hstep : ∀ s op, (∃ t, s = some t ∧ t.Ok) → KeepsExclusive s op →
      ∃ t, targStep s op = some t ∧ t.Ok := by
    rintro s op ⟨t, rfl, hok⟩ hkeep
    exact targStep_ok hok hkeep
  have hrun := always_of_guarded (fun s => ∃ t, s = some t ∧ t.Ok)
    ⟨Targ.initial, rfl, Targ.initial_ok⟩ hstep hg
  refine ⟨?_, ?_⟩
  · intro pre hpre
    obtain ⟨t, ht, hok⟩ := hrun pre hpre
    exact ⟨t, ht, fun c ch hc => (hok.channels c ch hc).exclusive⟩
  · intro pre op hpre
    obtain ⟨t, ht, hok⟩ := hrun pre ((List.prefix_append pre [op]).trans hpre)
    have hkeep := hg pre op hpre
    rw [ht] at hkeep ⊢
    exact createLeaves_of_ok hok hkeep

/-- An endpoint for one direction and one kind of transfer, control or bulk. -/
def endpointFor (endpointId direction : UInt16) (control : Bool) : EndpointInfo :=
  ⟨endpointId, direction = usbDirIn, direction = usbDirOut, control, !control, false, false, none⟩

/-- Nothing is refused, and the next handle is `handle`. -/
def granted (handle : Nat) : PipeAnswers := ⟨none, true, some handle, true, true⟩

/-- A controller with two pairs of control endpoints and a bulk endpoint. -/
def attachFive : TargOp :=
  .attach ⟨true, some 1, some 1, some [endpointFor 0 usbDirOut true, endpointFor 1 usbDirIn true,
    endpointFor 2 usbDirIn false, endpointFor 3 usbDirOut true, endpointFor 4 usbDirIn true],
    granted 2, true, true, true⟩

def bulkIn (num : UInt16) : PipeArgs := ⟨1, 2, 0, num, usbXfrtypeBulk, usbDirIn, true⟩

def controlPair (num : UInt16) : PipeArgs := ⟨1, 3, 4, num, usbXfrtypeControl, usbDirInout, true⟩

theorem endpoints_stay_exclusive_bulk :
    Always targStep Exclusive (some Targ.initial)
        [attachFive, .create (bulkIn 1) (granted 3),
          .create (controlPair 2) ⟨none, true, some 4, true, false⟩, .destroy 3 true] ∧
      ∀ pre op, pre ++ [op] <+: [attachFive, .create (bulkIn 1) (granted 3),
          .create (controlPair 2) ⟨none, true, some 4, true, false⟩, .destroy 3 true] →
        CreateLeaves (run targStep (some Targ.initial) pre) op := by
  refine endpoints_stay_exclusive _ (guarded_cons ?_ (guarded_cons ?_ (guarded_cons ?_
    (guarded_cons ?_ guarded_nil))))
  · rintro _ ⟨⟩
    exact ⟨fun _ _ _ => by decide, fun _ _ => rfl⟩
  · exact ⟨_, 1, _, rfl, rfl, rfl, rfl, fun hctl => absurd hctl (by decide)⟩
  · refine ⟨_, 1, _, rfl, rfl, rfl, rfl, ?_⟩
    intro _ k hk
    exact absurd (Channel.mem_of_use hk) (by decide)
  · exact fun _ _ _ _ _ _ _ _ _ => rfl

/-- A bulk pipe has IN endpoint number 1, and a control pipe with number 1 is created all
the same; and a call with a handle that stands for nothing has no end. -/
theorem endpoints_shared :
    (¬ Always targStep Exclusive (some Targ.initial)
      [attachFive, .create (bulkIn 1) (granted 3), .create (controlPair 1) (granted 4)]) ∧
    ¬ CreateLeaves (some Targ.initial) (.create (bulkIn 1) (granted 3)) := by
  constructor
  · intro h
    obtain ⟨t, ht, hex⟩ := h _ (List.prefix_refl _)
    obtain rfl := Option.some.inj ht
    have hsame := (hex 1 _ rfl).distinct 2 4 (usbDirIn, 1) rfl rfl
    exact absurd hsame (by decide)
  · rintro ⟨t, status, r, t', ht, hcall, -⟩
    obtain rfl := Option.some.inj ht
    cases hcall

end VxWorks.Usb
