import VxWorks.Ppp.Framing

/-!
# The receive limit (`PPPIOCSMRU`)

The limit on received packets is set by an `ioctl` with an `int`, kept in a
`short`, and compared with the count of the octets of a frame, which is another
`short`. The check admits what neither can hold. A value above 32767 is kept as a
negative number, and every frame is too long for it. Six below that, the limit
on the count is the largest `short`: the next octet makes the count negative and
nothing is too long any more.

What the receiver does under a limit that its count can pass is in two parts.
Frames of the right length are those of `frame_across`. For the others only the
count matters, and `Marking` follows it through the stuffed octets of a frame
until it is over the limit. `mru_honoured_iff` says for which arguments, and from
which states, the whole of it is so.
-/

namespace VxWorks.Ppp

/-- `PPP_MRU`, as the least limit. -/
def pppMinmru : Int := 1500
def pppMaxmru : Int := 65000
def enobufs : Nat := 55

/-- What `PPPIOCSMRU` returns and leaves: `up` is `IFF_UP`. -/
structure MruSet where
  error : Nat
  up : Bool
  sc : In

/-- `PPPIOCSMRU`. The calls of `pppgetm` get the mbufs they want or not. -/
def pppiocsmru (pppgetm : Nat → Bool) (up : Bool) (sc : In) (mru : Int) : MruSet :=
  if pppMinmru ≤ mru ∧ mru ≤ pppMaxmru then
    if pppgetm 0 then ⟨0, up, { sc with mru := toShort mru }⟩
    else ⟨enobufs, up && pppgetm 1, { sc with mru := pppMinmru }⟩
  else ⟨0, up, sc⟩

/-- `PPPIOCGMRU`. -/
def pppiocgmru (sc : In) : Int := sc.mru

/-! ## What is to be honoured -/

/-- A header that a packet may be sent with, and a map that escapes what the receiver would
drop. -/
structure Correct (sc : In) (asyncmap : ExtAccm) (hi lo : UInt8) (hs : List UInt8) : Prop where
  map : MapOk asyncmap
  covers : asyncmap 0 &&& sc.rasyncmap = sc.rasyncmap
  high : hi &&& 1 = 0
  low : lo &&& 1 = 1
  header : Shrunk hi lo hs
  address : sc.rejCompAc = true → hs.head? = some pppAllstations

/-- At any later time between two frames a packet of at most `limit` octets is delivered and
a longer one is not, and the count is never negative. -/
structure Honours (limit : Int) (sc : In) : Prop where
  accepts : ∀ {pool cs asyncmap hi lo hs info} idle, PoolOk pool → Ready (feed pool sc cs) →
    Correct sc asyncmap hi lo hs → (List.length info : Int) ≤ limit →
    Delivered (feed pool sc cs) (feed pool (feed pool sc cs) (frame asyncmap idle [hs ++ info]))
      (pppAllstations :: pppUi :: hi :: lo :: info)
  rejects : ∀ {pool cs asyncmap hi lo hs info} idle, Ready (feed pool sc cs) →
    Correct sc asyncmap hi lo hs → limit < (List.length info : Int) →
    (feed pool (feed pool sc cs) (frame asyncmap idle [hs ++ info])).got = (feed pool sc cs).got
  counts : ∀ pool cs, 0 ≤ (feed pool sc cs).ilen

/-- The limit that was asked for, or the least one for one that is smaller, is what
`PPPIOCGMRU` returns and what the receiver goes by. -/
def MruHonoured (mru : Int) (sc : In) : Prop :=
  (pppiocgmru sc = mru ∨ mru < pppMinmru ∧ pppiocgmru sc = pppMinmru) ∧ Honours (pppiocgmru sc) sc

/-- The fields that are `short` have values of a `short`. -/
structure In.Shorts (sc : In) : Prop where
  mru : toShort sc.mru = sc.mru
  ilen : toShort sc.ilen = sc.ilen

/-- The count is right, and one more octet will not make it wrong. -/
structure In.Counts (sc : In) : Prop where
  nonneg : 0 ≤ sc.ilen
  room : sc.flush = true ∨ sc.ilen ≤ 32766

/-! ## The count -/

section

variable {pool : Pool} {asyncmap : ExtAccm} {sc₀ sc sc' : In} {c : UInt8} {k : Int}

/-- What the steps of an octet leave alone. -/
structure Unmoved (sc sc' : In) : Prop extends SameSettings sc sc' where
  escaped : sc'.escaped = sc.escaped
  flush : sc'.flush = sc.flush

theorem Unmoved.refl (sc : In) : Unmoved sc sc := ⟨⟨rfl, rfl, rfl, rfl⟩, rfl, rfl⟩

theorem Unmoved.trans {sc₁ : In} (h : Unmoved sc sc₁) (h' : Unmoved sc₁ sc') : Unmoved sc sc' :=
  ⟨⟨h'.rejCompAc.trans h.rejCompAc, h'.rasyncmap.trans h.rasyncmap, h'.mru.trans h.mru,
    h'.got.trans h.got⟩, h'.escaped.trans h.escaped, h'.flush.trans h.flush⟩

/-- A step goes on with a count of which `P` holds, or gives the frame up. -/
def Goes (sc : In) (P : Int → Prop) : Except In In → Prop
  | .ok s => Unmoved sc s ∧ P s.ilen
  | .error s => Unmoved sc s ∧ 0 ≤ s.ilen ∧ s.ilen ≤ 32767

theorem Goes.bind {P Q : Int → Prop} {r : Except In In} {f : In → Except In In}
    (h : Goes sc P r) (hf : ∀ s, Unmoved sc s → P s.ilen → Goes s Q (f s)) : Goes sc Q (r >>= f) := by
  cases r with
  | error s => exact h
  | ok s =>
      obtain ⟨hs, hk⟩ := h
      have hnext := hf s hs hk
      show Goes sc Q (f s)
      cases hr : f s with
      | ok t =>
          rw [hr] at hnext
          exact ⟨hs.trans hnext.1, hnext.2⟩
      | error t =>
          rw [hr] at hnext
          exact ⟨hs.trans hnext.1, hnext.2⟩

/-- The count when the octet itself is counted: what is filled in for a header that was
compressed is counted before it. -/
def filledIn (k : Int) (c : UInt8) : Int :=
  let k := if k = 0 ∧ c ≠ pppAllstations then 2 else k
  if k = 2 ∧ c &&& 1 = 1 then 3 else k

theorem filledIn_bounds (h : 0 ≤ k ∧ k ≤ 32766) (c : UInt8) :
    0 ≤ filledIn k c ∧ filledIn k c ≤ 32766 := by
  unfold filledIn
  dsimp only
  split_ifs <;> omega

theorem inFirst_goes (h : 0 ≤ sc.ilen ∧ sc.ilen ≤ 32766) :
    Goes sc (· = if sc.ilen = 0 ∧ c ≠ pppAllstations then 2 else sc.ilen) (inFirst pool sc c) := by
  rw [inFirst]
  by_cases hk : sc.ilen = 0
  · rw [if_neg (not_not.mpr hk)]
    dsimp only
    by_cases hpool : pool sc.got.length 0 = none
    · rw [if_pos hpool]
      exact ⟨.refl sc, h.1, by omega⟩
    · rw [if_neg hpool]
      by_cases hc : c = pppAllstations
      · rw [if_pos hc, if_neg fun hne => hne.2 hc]
        exact ⟨⟨⟨rfl, rfl, rfl, rfl⟩, rfl, rfl⟩, rfl⟩
      · rw [if_neg hc, if_pos ⟨hk, hc⟩]
        split_ifs
        · exact ⟨⟨⟨rfl, rfl, rfl, rfl⟩, rfl, rfl⟩, h.1, by simp only; omega⟩
        · exact ⟨⟨⟨rfl, rfl, rfl, rfl⟩, rfl, rfl⟩, by simp only [hk]; rfl⟩
  · rw [if_pos hk, if_neg fun hand => hk hand.1]
    exact ⟨.refl sc, rfl⟩

theorem inControl_goes (h : 0 ≤ sc.ilen ∧ sc.ilen ≤ 32766) :
    Goes sc (· = sc.ilen) (inControl sc c) := by
  rw [inControl]
  split_ifs with hc
  · exact ⟨.refl sc, h.1, by omega⟩
  · exact ⟨.refl sc, rfl⟩

theorem inProtocol_goes (h : 0 ≤ sc.ilen ∧ sc.ilen ≤ 32766) :
    Goes sc (· = if sc.ilen = 2 ∧ c &&& 1 = 1 then 3 else sc.ilen) (inProtocol sc c) := by
  rw [inProtocol]
  by_cases hc : sc.ilen = 2 ∧ c &&& 1 = 1
  · have hodd : ¬ (c &&& 1 = 0) := by
      rw [hc.2]
      decide
    simp only [if_pos hc]
    rw [if_neg fun hand => hodd hand.2]
    exact ⟨⟨⟨rfl, rfl, rfl, rfl⟩, rfl, rfl⟩, by simp only [hc.1]; rfl⟩
  · simp only [if_neg hc]
    split_ifs
    · exact ⟨.refl sc, h.1, by omega⟩
    · exact ⟨.refl sc, rfl⟩

theorem inCount_goes (h : 0 ≤ sc.ilen ∧ sc.ilen ≤ 32766) :
    Goes sc (fun n => n = sc.ilen + 1 ∧ n ≤ sc.mru + 6) (inCount sc) := by
  rw [inCount, toShort_eq (by omega) (by omega)]
  dsimp only
  split_ifs with hlong
  · exact ⟨⟨⟨rfl, rfl, rfl, rfl⟩, rfl, rfl⟩, by simp only; omega, by simp only; omega⟩
  · simp only [pppHdrlen, pppFcslen] at hlong
    exact ⟨⟨⟨rfl, rfl, rfl, rfl⟩, rfl, rfl⟩, rfl, by simp only; omega⟩

theorem inRoom_goes {P : Int → Prop} (h : 0 ≤ sc.ilen ∧ sc.ilen ≤ 32767) (hP : P sc.ilen) :
    Goes sc P (inRoom pool sc) := by
  unfold inRoom
  dsimp only
  split_ifs
  · exact ⟨.refl sc, hP⟩
  · exact ⟨.refl sc, h⟩
  · exact ⟨⟨⟨rfl, rfl, rfl, rfl⟩, rfl, rfl⟩, hP⟩

/-- An octet is counted, or the frame is given up. -/
theorem inOctet_counts (h : 0 ≤ sc.ilen ∧ sc.ilen ≤ 32766) :
    SameSettings sc (inOctet pool sc c) ∧ (inOctet pool sc c).escaped = sc.escaped ∧
      0 ≤ (inOctet pool sc c).ilen ∧ (inOctet pool sc c).ilen ≤ 32767 ∧
      ((inOctet pool sc c).flush = true ∨ (inOctet pool sc c).flush = sc.flush ∧
        (inOctet pool sc c).ilen = filledIn sc.ilen c + 1 ∧
        (inOctet pool sc c).ilen ≤ sc.mru + 6) := by
  obtain ⟨hlo, hhi⟩ := filledIn_bounds h c
  have hgoes : Goes sc (fun n => n = filledIn sc.ilen c + 1 ∧ n ≤ sc.mru + 6)
      (do
        let sc ← inFirst pool sc c
        let sc ← inControl sc c
        let sc ← inProtocol sc c
        let sc ← inCount sc
        let sc ← inRoom pool sc
        pure { sc with mc := sc.mc ++ [c], fcs := pppFcs sc.fcs c }) := by
    refine (inFirst_goes h).bind ?_
    intro s₁ hs₁ hk₁
    have hb₁ : 0 ≤ s₁.ilen ∧ s₁.ilen ≤ 32766 := by
      rw [hk₁]
      split_ifs <;> omega
    refine (inControl_goes hb₁).bind ?_
    intro s₂ hs₂ hk₂
    refine (inProtocol_goes (by omega)).bind ?_
    intro s₃ hs₃ hk₃
    have hk : s₃.ilen = filledIn sc.ilen c := by
      rw [hk₃, hk₂, hk₁]
      rfl
    refine (inCount_goes (by omega)).bind ?_
    intro s₄ hs₄ hk₄
    have hmru : s₃.mru = sc.mru := hs₃.mru.trans (hs₂.mru.trans hs₁.mru)
    refine (inRoom_goes (P := fun n => n = filledIn sc.ilen c + 1 ∧ n ≤ sc.mru + 6)
      (by omega) ?_).bind ?_
    · rw [← hk, ← hmru]
      exact hk₄
    · intro s₅ hs₅ hk₅
      exact ⟨⟨⟨rfl, rfl, rfl, rfl⟩, rfl, rfl⟩, hk₅⟩
  unfold inOctet
  dsimp only
  split
  · next s hr =>
      rw [hr] at hgoes
      obtain ⟨hs, hk, hle⟩ := hgoes
      exact ⟨hs.toSameSettings, hs.escaped, by omega, by omega, .inr ⟨hs.flush, hk, hle⟩⟩
  · next s hr =>
      rw [hr] at hgoes
      obtain ⟨hs, hlo', hhi'⟩ := hgoes
      exact ⟨⟨hs.rejCompAc, hs.rasyncmap, hs.mru, hs.got⟩, hs.escaped, hlo', hhi', .inl rfl⟩

/-! ## Every octet -/

/-- What no octet of the line changes. -/
structure SameLimit (sc sc' : In) : Prop where
  rejCompAc : sc'.rejCompAc = sc.rejCompAc
  rasyncmap : sc'.rasyncmap = sc.rasyncmap
  mru : sc'.mru = sc.mru

theorem SameSettings.limit (h : SameSettings sc sc') : SameLimit sc sc' :=
  ⟨h.rejCompAc, h.rasyncmap, h.mru⟩

theorem inOctet_keeps (h : sc.Counts) (hflush : sc.flush = false) (hmru : sc.mru ≤ 32760) :
    (inOctet pool sc c).Counts ∧ SameLimit sc (inOctet pool sc c) := by
  have hroom : sc.ilen ≤ 32766 := h.room.resolve_left (by simp [hflush])
  obtain ⟨hsame, -, hlo, -, hhi⟩ := inOctet_counts (c := c) ⟨h.nonneg, hroom⟩
  exact ⟨⟨hlo, hhi.imp id fun hle => by omega⟩, hsame.limit⟩

theorem inFlag_ilen (sc : In) : (inFlag sc).ilen = 0 := by
  rw [inFlag]
  dsimp only
  split_ifs <;> rfl

theorem inFlag_limit (sc : In) : SameLimit sc (inFlag sc) := by
  rw [inFlag]
  dsimp only
  split_ifs <;> exact ⟨rfl, rfl, rfl⟩

theorem flag_ready (pool : Pool) (sc : In) : Ready (pppinput pool sc pppFlag) := by
  rw [pppinput, if_pos rfl]
  refine ⟨?_, ?_, inFlag_ilen sc⟩
  all_goals
    rw [inFlag]
    dsimp only
    split_ifs with hbad hshort
  · rfl
  · simpa using fun h => hbad (.inl h)
  · simpa using fun h => hbad (.inl h)
  · rfl
  · simpa using fun h => hbad (.inr (.inl h))
  · simpa using fun h => hbad (.inr (.inl h))

theorem input_keeps (h : sc.Counts) (hmru : sc.mru ≤ 32760) :
    (pppinput pool sc c).Counts ∧ SameLimit sc (pppinput pool sc c) := by
  rw [pppinput]
  split_ifs with hflag hflush hctl hesc hescape
  · have hzero := inFlag_ilen sc
    exact ⟨⟨hzero.ge, .inr (by omega)⟩, inFlag_limit sc⟩
  · exact ⟨h, ⟨rfl, rfl, rfl⟩⟩
  · exact ⟨h, ⟨rfl, rfl, rfl⟩⟩
  · have hunescaped : ({ sc with escaped := false } : In).Counts := ⟨h.nonneg, h.room⟩
    obtain ⟨hcounts, hsame⟩ := inOctet_keeps (c := c ^^^ pppTrans) hunescaped
      (by simpa using hflush) hmru
    exact ⟨hcounts, ⟨hsame.rejCompAc, hsame.rasyncmap, hsame.mru⟩⟩
  · exact ⟨⟨h.nonneg, h.room⟩, ⟨rfl, rfl, rfl⟩⟩
  · exact inOctet_keeps h (by simpa using hflush) hmru

theorem feed_keeps (h : sc.Counts) (hmru : sc.mru ≤ 32760) (pool : Pool) (cs : List UInt8) :
    (feed pool sc cs).Counts ∧ SameLimit sc (feed pool sc cs) := by
  induction cs generalizing sc with
  | nil => exact ⟨h, ⟨rfl, rfl, rfl⟩⟩
  | cons c cs ih =>
      obtain ⟨hnext, hsame⟩ := input_keeps (c := c) h hmru
      obtain ⟨hrest, hsame'⟩ := ih hnext (by rw [hsame.mru]; exact hmru)
      exact ⟨hrest, hsame'.rejCompAc.trans hsame.rejCompAc,
        hsame'.rasyncmap.trans hsame.rasyncmap, hsame'.mru.trans hsame.mru⟩

/-! ## A frame that is too long -/

/-- The receiver is inside a frame: it has given it up, or has counted `k` octets, which are
not too many. -/
structure Marking (sc₀ sc : In) (k : Int) : Prop extends SameSettings sc₀ sc where
  escaped : sc.escaped = false
  count : sc.flush = true ∨
    sc.flush = false ∧ sc.ilen = k ∧ (0 < k → k ≤ sc₀.mru + 6)

theorem Ready.marking (h : Ready sc) : Marking sc sc 0 :=
  ⟨⟨rfl, rfl, rfl, rfl⟩, h.escaped, .inr ⟨h.flush, h.ilen, fun h0 => by omega⟩⟩

/-- No octet of a frame is a flag. -/
theorem stuff_ne_flag (hm : MapOk asyncmap) (c : UInt8) : ∀ d ∈ stuff asyncmap c, d ≠ pppFlag := by
  intro d hd
  rw [stuff] at hd
  split at hd
  · next hc =>
      rcases List.mem_cons.mp hd with rfl | hd
      · decide
      · rw [List.mem_singleton.mp hd]
        intro heq
        rw [trans_ne_flag c heq, not_escapeP_5e hm] at hc
        cases hc
  · next hc =>
      rw [List.mem_singleton.mp hd]
      rintro rfl
      exact hc (escapeP_flag hm)

theorem feed_flush {cs : List UInt8} (h : sc.flush = true) (hcs : ∀ d ∈ cs, d ≠ pppFlag) :
    feed pool sc cs = sc := by
  induction cs with
  | nil => rfl
  | cons d cs ih =>
      have hd : pppinput pool sc d = sc := by
        rw [pppinput, if_neg (hcs d List.mem_cons_self), if_pos h]
      rw [feed, List.foldl_cons, hd]
      exact ih fun x hx => hcs x (List.mem_cons_of_mem d hx)

theorem Marking.stuff (hm : MapOk asyncmap) (hr : asyncmap 0 &&& sc₀.rasyncmap = sc₀.rasyncmap)
    (hmru : sc₀.mru ≤ 32760) (h : Marking sc₀ sc k) (h₀ : 0 ≤ k) (c : UInt8) :
    Marking sc₀ (feed pool sc (stuff asyncmap c)) (filledIn k c + 1) := by
  rcases h.count with hflush | ⟨hflush, hk, hle⟩
  · rw [feed_flush hflush (stuff_ne_flag hm c)]
    exact ⟨h.toSameSettings, h.escaped, .inl hflush⟩
  · have hr' : asyncmap 0 &&& sc.rasyncmap = sc.rasyncmap := by
      rw [h.rasyncmap]
      exact hr
    have hroom : k ≤ 32766 := by
      rcases Int.lt_or_le 0 k with hpos | hneg
      · have := hle hpos
        omega
      · omega
    have hbounds : 0 ≤ sc.ilen ∧ sc.ilen ≤ 32766 := by omega
    obtain ⟨hsame, hesc, -, -, hcount⟩ := inOctet_counts (c := c) hbounds
    have hfeed : feed pool sc (VxWorks.Ppp.stuff asyncmap c) = inOctet pool sc c :=
      feed_stuff hm hr' hflush h.escaped
    rw [hfeed]
    refine ⟨⟨hsame.rejCompAc.trans h.rejCompAc, hsame.rasyncmap.trans h.rasyncmap,
      hsame.mru.trans h.mru, hsame.got.trans h.got⟩, hesc.trans h.escaped, ?_⟩
    rcases hcount with hout | ⟨hstay, hcounted, hlimit⟩
    · exact .inl hout
    · rw [hk] at hcounted
      refine .inr ⟨hstay.trans hflush, hcounted, ?_⟩
      intro _
      rw [← hcounted, ← h.mru]
      exact hlimit

theorem Marking.body (pool : Pool) (hm : MapOk asyncmap)
    (hr : asyncmap 0 &&& sc₀.rasyncmap = sc₀.rasyncmap) (hmru : sc₀.mru ≤ 32760)
    (h : Marking sc₀ sc k) (h₃ : 3 ≤ k) (cs : List UInt8) :
    Marking sc₀ (feed pool sc (stuffAll asyncmap cs)) (k + cs.length) := by
  induction cs generalizing sc k with
  | nil => simpa [feed, stuffAll] using h
  | cons c cs ih =>
      have hk : filledIn k c = k := by
        unfold filledIn
        dsimp only
        rw [if_neg (by omega), if_neg (by omega)]
      have hnext : Marking sc₀ (feed pool sc (VxWorks.Ppp.stuff asyncmap c)) (filledIn k c + 1) :=
        h.stuff hm hr hmru (by omega) c
      rw [hk] at hnext
      rw [feed_stuffAll_cons]
      have hrest := ih hnext (by omega)
      have hlen : k + 1 + (cs.length : Int) = k + ((c :: cs).length : Int) := by
        rw [List.length_cons]
        omega
      rwa [hlen] at hrest

theorem Marking.header {hi lo : UInt8} {hs : List UInt8} (hmru : sc.mru ≤ 32760) (h : Ready sc)
    (hc : Correct sc asyncmap hi lo hs) : Marking sc (feed pool sc (stuffAll asyncmap hs)) 4 := by
  have hstep : ∀ {s k} (c : UInt8) (k' : Int), 0 ≤ k → Marking sc s k → filledIn k c + 1 = k' →
      Marking sc (feed pool s (VxWorks.Ppp.stuff asyncmap c)) k' := by
    rintro s k c _ h₀ hs rfl
    exact hs.stuff hc.map hc.covers hmru h₀ c
  have hhi : ¬ (hi &&& 1 = 1) := by
    rw [hc.high]
    decide
  have hff : hi ≠ pppAllstations := by
    rintro rfl
    exact absurd hc.high (by decide)
  have hlow := hc.low
  cases hc.header with
  | whole =>
      simp only [feed_stuffAll_cons]
      have h₁ := hstep pppAllstations 1 (by decide) h.marking (by simp [filledIn])
      have h₂ := hstep pppUi 2 (by decide) h₁ (by simp [filledIn])
      have h₃ := hstep hi 3 (by decide) h₂ (by simp [filledIn, hhi])
      exact hstep lo 4 (by decide) h₃ (by simp [filledIn])
  | prot _ =>
      simp only [feed_stuffAll_cons]
      have h₁ := hstep pppAllstations 1 (by decide) h.marking (by simp [filledIn])
      have h₂ := hstep pppUi 2 (by decide) h₁ (by simp [filledIn])
      exact hstep lo 4 (by decide) h₂ (by simp [filledIn, hlow])
  | ac =>
      simp only [feed_stuffAll_cons]
      have h₁ := hstep hi 3 (by decide) h.marking (by simp [filledIn, hhi, hff])
      exact hstep lo 4 (by decide) h₁ (by simp [filledIn])
  | both _ hlo =>
      simp only [feed_stuffAll_cons]
      exact hstep lo 4 (by decide) h.marking (by simp [filledIn, hlow, hlo])

/-- Nothing comes of a frame with more than the limit in it. -/
theorem long_frame {hi lo : UInt8} {hs info : List UInt8} (idle : Bool) (hmru : sc.mru ≤ 32760)
    (h : Ready sc) (hc : Correct sc asyncmap hi lo hs) (hlong : sc.mru < (info.length : Int)) :
    (feed pool sc (frame asyncmap idle [hs ++ info])).got = sc.got := by
  have hopen : feed pool sc (if idle then [pppFlag] else []) = sc := by
    split
    · exact opening_across h
    · rfl
  generalize hg : pppfcs pppInitfcs (hs ++ info) = g
  have hframe : frame asyncmap idle [hs ++ info] = (if idle then [pppFlag] else []) ++
      (stuffAll asyncmap hs ++
        (stuffAll asyncmap (info ++ [(~~~ g).toUInt8, (~~~ g >>> 8).toUInt8]) ++ [pppFlag])) := by
    rw [frame, List.flatten_singleton, hg, stuffAll_append, stuffAll_append, endseq]
    simp [stuffAll]
  rw [hframe, feed_append, hopen, feed_append, feed_append]
  have hheader : Marking sc (feed pool sc (stuffAll asyncmap hs)) 4 := .header hmru h hc
  have hall := hheader.body pool hc.map hc.covers hmru (by decide)
    (info ++ [(~~~ g).toUInt8, (~~~ g >>> 8).toUInt8])
  generalize feed pool (feed pool sc (stuffAll asyncmap hs)) _ = sc' at hall ⊢
  rcases hall.count with hflush | ⟨-, -, hle⟩
  · show (pppinput pool sc' pppFlag).got = sc.got
    rw [pppinput, if_pos rfl, inFlag]
    dsimp only
    rw [if_pos (.inl hflush)]
    exact hall.got
  · rw [List.length_append, List.length_cons, List.length_singleton] at hle
    omega

/-! ## Where the count runs over -/

theorem inOctet_wraps (h : sc.ilen = 32767) : (inOctet pool sc c).ilen = -32768 := by
  have hfirst : inFirst pool sc c = .ok sc := by
    rw [inFirst, if_pos (by omega)]
  have hcontrol : inControl sc c = .ok sc := by
    rw [inControl, if_neg]
    omega
  have hprotocol : inProtocol sc c = .ok sc := by
    have hodd : ¬ (sc.ilen = 2 ∧ c &&& 1 = 1) := by omega
    have heven : ¬ (sc.ilen = 3 ∧ c &&& 1 = 0) := by omega
    rw [inProtocol, if_neg hodd, if_neg heven]
  have hwrap : toShort (sc.ilen + 1) = -32768 := by
    rw [h]
    decide
  unfold inOctet
  simp only [hfirst, hcontrol, hprotocol, bind, Except.bind, inCount, hwrap]
  by_cases hlong : sc.mru + (pppHdrlen : Int) + (pppFcslen : Int) < -32768
  · rw [if_pos hlong]
  · rw [if_neg hlong]
    unfold inRoom
    dsimp only
    split_ifs <;> rfl

/-- An octet that is no flag is all it takes. -/
theorem input_wraps (h : sc.ilen = 32767) (hflush : sc.flush = false) :
    (pppinput pool sc 97).ilen = -32768 := by
  rw [pppinput, if_neg (by decide), if_neg (by simp [hflush]), if_neg fun hctl =>
    absurd hctl.1 (by decide)]
  split_ifs with hesc hescape
  · exact inOctet_wraps h
  · exact absurd hescape (by decide)
  · exact inOctet_wraps h

theorem all_escaped (sc : In) : pppopenMap 0 &&& sc.rasyncmap = sc.rasyncmap :=
  UInt32.neg_one_and

/-- A frame with as many octets as a `short` can count and one more. -/
theorem count_runs_over (sc : In) (hlo : 32761 ≤ sc.mru) :
    ∃ pool cs, (feed pool sc cs).ilen < 0 := by
  have hpool : PoolOk fun _ _ => some 1 := fun _ _ => ⟨1, rfl, by decide⟩
  let pool : Pool := fun _ _ => some 1
  have hready := flag_ready pool sc
  have hsame : SameLimit sc (pppinput pool sc pppFlag) := by
    rw [pppinput, if_pos rfl]
    exact inFlag_limit sc
  generalize hs₀ : pppinput pool sc pppFlag = s₀ at hready hsame
  have hheader := header_across hpool mapOk_pppopen
    (all_escaped s₀) hready (fun _ => rfl) (by rw [hsame.mru]; omega) (by decide) (by decide)
    (.whole : Shrunk 0 0x21 _)
  obtain ⟨info, hinfo⟩ : ∃ l : List UInt8, l.length = 32763 :=
    ⟨List.replicate 32763 97, List.length_replicate⟩
  have hbody := body_across hpool mapOk_pppopen (all_escaped s₀) hheader (by decide) info
    (by rw [hsame.mru, hinfo]; simp only [List.length_cons, List.length_nil]; omega)
    (by rw [hinfo]; decide)
  have hlen := hbody.ilen
  rw [List.length_append, hinfo] at hlen
  refine ⟨pool, pppFlag :: (stuffAll pppopenMap [pppAllstations, pppUi, 0, 0x21] ++
    (stuffAll pppopenMap info ++ [97])), ?_⟩
  have hfeed : ∀ cs, feed pool sc (pppFlag :: cs) = feed pool s₀ cs := by
    intro cs
    rw [← hs₀]
    rfl
  rw [hfeed, feed_append, feed_append]
  show (pppinput pool _ 97).ilen < 0
  rw [input_wraps hlen hbody.flush]
  decide

end

/-! ## The `ioctl` -/

theorem toShort_of_le {m : Int} (h₀ : 0 ≤ m) (h₁ : m ≤ 32767) : toShort m = m :=
  toShort_eq (by omega) h₁

theorem In.Shorts.mru_le {sc : In} (h : sc.Shorts) : -32768 ≤ sc.mru ∧ sc.mru ≤ 32767 := by
  have := h.mru
  rw [toShort] at this
  omega

theorem honours_of_counts {sc : In} (h : sc.Counts) (hmru : sc.mru ≤ 32760) :
    Honours sc.mru sc where
  accepts := by
    intro pool cs asyncmap hi lo hs info idle hp hready hc hfit
    obtain ⟨-, hsame⟩ := feed_keeps h hmru pool cs
    have hfit' : ((info ++ ([] : Mbufs).flatten).length : Int) ≤ (feed pool sc cs).mru := by
      rw [hsame.mru]
      simpa using hfit
    have hdel := frame_across idle hp hc.map
      (by rw [hsame.rasyncmap]; exact hc.covers) hready
      (by rw [hsame.rejCompAc]; exact hc.address) hc.high hc.low hc.header hfit' (by simp; omega)
    simpa using hdel
  rejects := by
    intro pool cs asyncmap hi lo hs info idle hready hc hlong
    obtain ⟨-, hsame⟩ := feed_keeps h hmru pool cs
    refine long_frame idle (by rw [hsame.mru]; exact hmru) hready
      ⟨hc.map, ?_, hc.high, hc.low, hc.header, ?_⟩ (by rw [hsame.mru]; exact hlong)
    · rw [hsame.rasyncmap]
      exact hc.covers
    · rw [hsame.rejCompAc]
      exact hc.address
  counts := fun pool cs => (feed_keeps h hmru pool cs).1.nonneg

theorem counts_of_honours {limit : Int} (sc : In) (hilen : toShort sc.ilen = sc.ilen)
    (h : Honours limit sc) : sc.Counts := by
  have hnonneg : 0 ≤ sc.ilen := h.counts (fun _ _ => none) []
  refine ⟨hnonneg, ?_⟩
  by_contra hbad
  obtain ⟨hflush, hlong⟩ := not_or.mp hbad
  have hmax : sc.ilen = 32767 := by
    rw [toShort] at hilen
    omega
  have hneg : 0 ≤ (pppinput (fun _ _ => none) sc 97).ilen := h.counts (fun _ _ => none) [97]
  rw [input_wraps hmax (by simpa using hflush)] at hneg
  exact absurd hneg (by decide)

/-- When an argument that was not refused is honoured: it is one from 1500 to 32760, or it is
smaller and the limit in force is 1500 or happens to be that; and the count of a frame that is
coming in must not have reached its end under an earlier limit. -/
theorem mru_honoured_iff (pppgetm : Nat → Bool) (up : Bool) (sc : In) (hsc : sc.Shorts) (mru : Int)
    (hok : (pppiocsmru pppgetm up sc mru).error = 0) :
    MruHonoured mru (pppiocsmru pppgetm up sc mru).sc ↔
      sc.Counts ∧ (1500 ≤ mru ∧ mru ≤ 32760 ∨ mru < 1500 ∧ (sc.mru = 1500 ∨ sc.mru = mru)) := by
  rw [pppiocsmru] at hok ⊢
  by_cases hin : pppMinmru ≤ mru ∧ mru ≤ pppMaxmru
  · rw [if_pos hin] at hok ⊢
    have hgot : pppgetm 0 = true := by
      by_contra hgot
      rw [if_neg hgot] at hok
      cases hok
    rw [if_pos hgot]
    simp only [pppMinmru, pppMaxmru] at hin
    constructor
    · rintro ⟨hget, hhonours⟩
      have hcounts := counts_of_honours { sc with mru := toShort mru } hsc.ilen hhonours
      refine ⟨⟨hcounts.nonneg, hcounts.room⟩, .inl ⟨hin.1, ?_⟩⟩
      have hsame : toShort mru = mru := by
        simp only [pppiocgmru, pppMinmru] at hget
        omega
      by_contra hbig
      have hlo : 32761 ≤ toShort mru := by omega
      obtain ⟨pool, cs, hneg⟩ := count_runs_over { sc with mru := toShort mru } hlo
      exact Int.not_le.mpr hneg (hhonours.counts pool cs)
    · rintro ⟨hcounts, hcond⟩
      have hshort : toShort mru = mru := toShort_of_le (by omega) (by omega)
      refine ⟨.inl hshort, honours_of_counts ⟨hcounts.nonneg, hcounts.room⟩ ?_⟩
      simp only [hshort]
      omega
  · rw [if_neg hin]
    simp only [pppMinmru, pppMaxmru, pppiocgmru, MruHonoured] at hin ⊢
    have hle := hsc.mru_le
    constructor
    · rintro ⟨hget, hhonours⟩
      exact ⟨counts_of_honours _ hsc.ilen hhonours, by omega⟩
    · rintro ⟨hcounts, hcond⟩
      exact ⟨by omega, honours_of_counts hcounts (by omega)⟩

/-- 32000 is kept and honoured by a receiver that has just been started. -/
theorem mru_honoured_32000 :
    MruHonoured 32000 (pppiocsmru (fun _ => true) true (.start false 0 1500) 32000).sc :=
  (mru_honoured_iff (fun _ => true) true (.start false 0 1500) ⟨rfl, rfl⟩ 32000 rfl).mpr
    ⟨⟨by decide, .inr (by decide)⟩, .inl (by decide)⟩

/-- 40000 is not refused and comes back as -25536. -/
theorem mru_wraps :
    (pppiocsmru (fun _ => true) true (.start false 0 1500) 40000).error = 0 ∧
      ¬ MruHonoured 40000 (pppiocsmru (fun _ => true) true (.start false 0 1500) 40000).sc := by
  refine ⟨rfl, ?_⟩
  intro h
  have hget : pppiocgmru (pppiocsmru (fun _ => true) true (.start false 0 1500) 40000).sc = -25536 :=
    rfl
  have hsame := h.1
  rw [hget] at hsame
  exact absurd hsame (by decide)

end VxWorks.Ppp
