import VxWorks.Ppp.Getword

/-!
# Where `getword` stores

The second loop counts past the end of the array so that a word that is too long
is consumed, and it asks before it stores. Only in one place it does not ask. A
special character behind a backslash goes where the backslash has gone, at
`word[len-1]`, and the backslash of a long word has not gone anywhere.

So the walk is piece by piece again, this time for words of any length, and of
each piece it is enough to know where it begins: reading one stays in the array
unless it is an escaped character that begins at `MAXWORDLEN` or behind it. From
there a whole file is one induction. `getword_inside_iff` says which files are
read within the array: those whose first word has no such piece.
-/

namespace VxWorks.Ppp

open VxWorks.Lib

/-- The pieces fit one after the other; the quotes may still be open behind them. -/
def fitting : Bool → List Piece → Bool
  | _, [] => true
  | quoted, p :: ps => p.fits quoted && fitting (p.turns quoted) ps

/-- The first word of the file has an escaped character that `MAXWORDLEN` octets or more
of the word stand in front of. -/
def Overlong (f : File) : Prop :=
  ∃ gs ps c rest, (∀ g ∈ gs, Gap.fits g = true) ∧ fitting false (ps ++ [.escaped c]) = true ∧
    maxwordlen ≤ (wordValue ps).length ∧
    f = gapText gs ++ (wordText (ps ++ [.escaped c]) ++ rest)

/-- Every store was into the array. -/
def WordBuf.Inside (w : WordBuf) : Prop := ∀ i ∈ w.stores, i < maxwordlen

/-- Every store was into the array, and a word that is returned ends there. -/
def GotWord.StaysInside (g : GotWord) : Prop :=
  g.word.Inside ∧ (g.ret = true → ∃ i < maxwordlen, g.word.octets i = 0)

theorem WordBuf.inside_set (w : WordBuf) (i : Nat) (c : UInt8) :
    (w.set i c).Inside ↔ i < maxwordlen ∧ w.Inside := by
  simp [Inside, set]

theorem WordBuf.Inside.set {w : WordBuf} (hw : w.Inside) {i : Nat} (hi : i < maxwordlen)
    (c : UInt8) : (w.set i c).Inside :=
  (w.inside_set i c).mpr ⟨hi, hw⟩

theorem Scan.inside_store (s : Scan) (c : UInt8) : (s.store c).word.Inside ↔ s.word.Inside := by
  rw [store]
  split_ifs with h
  · have hlen : s.len < maxwordlen := by omega
    exact (s.word.inside_set s.len c).trans (and_iff_right hlen)
  · rfl

/-! ## What was stored stays stored -/

theorem Scan.inside_of_turn {s s' : Scan} {c : UInt8} (h : s.turn c = some s')
    (hs : s'.word.Inside) : s.word.Inside := by
  rw [turn] at h
  split_ifs at h with hesc hn hput hquote hend
  · obtain rfl := Option.some.inj h
    exact hs
  · obtain rfl := Option.some.inj h
    exact ((s.word.inside_set _ c).mp hs).2
  · obtain rfl := Option.some.inj h
    exact (s.inside_store c).mp hs
  · obtain rfl := Option.some.inj h
    exact hs
  · obtain rfl := Option.some.inj h
    exact (s.inside_store c).mp hs

theorem inside_of_scanWord {s : Scan} {f : File} (h : (scanWord s f).1.word.Inside) :
    s.word.Inside := by
  fun_induction scanWord s f with
  | case1 => exact h
  | case2 => exact h
  | case3 s c f s' hturn ih => exact Scan.inside_of_turn hturn (ih h)

/-- A word is not longer than what it is read from, so the `int` that counts it does not run
over before the offset of the file does. -/
theorem scanWord_len_le (s : Scan) (f : File) : (scanWord s f).1.len ≤ s.len + f.length := by
  fun_induction scanWord s f with
  | case1 => exact Nat.le_refl _
  | case2 => exact Nat.le_add_right ..
  | case3 s c f s' hturn ih =>
      have hlen : s'.len ≤ s.len + 1 := by
        rw [Scan.turn] at hturn
        split_ifs at hturn
        all_goals
          obtain rfl := Option.some.inj hturn
          simp only [Scan.store]
          omega
      rw [List.length_cons]
      omega

/-! ## Piece by piece -/

/-- The second loop is between two pieces and `n` octets into the word. -/
structure Scan.Between (s : Scan) (quoted : Bool) (n : Nat) : Prop where
  escape : s.escape = false
  quoted : s.quoted = quoted
  len : s.len = n

theorem Scan.Between.backslash {s : Scan} {q : Bool} {n : Nat} (h : s.Between q n) (f : File) :
    scanWord s (chBackslash :: f) = scanWord s.behindBackslash f :=
  scanWord_backslash ⟨h.escape, h.quoted, rfl⟩ f

theorem Scan.inside_behindBackslash (s : Scan) :
    s.behindBackslash.word.Inside ↔ s.word.Inside :=
  s.inside_store chBackslash

/-- A piece that begins `n` octets into the word is stored where there is room. -/
def Piece.Within (n : Nat) : Piece → Prop
  | .escaped _ => n < maxwordlen
  | _ => True

theorem Scan.Between.piece {s : Scan} {q : Bool} {n : Nat} {p : Piece} (h : s.Between q n)
    (hp : p.fits q = true) :
    ∃ s' : Scan, s'.Between (p.turns q) (n + p.value.length) ∧
      (s'.word.Inside ↔ s.word.Inside ∧ p.Within n) ∧
      ∀ f, scanWord s (p.text ++ f) = scanWord s' f := by
  have hback := h.backslash
  cases p with
  | plain c =>
      have hturn := Scan.turn_plain h.escape h.quoted hp
      refine ⟨{ s.store c with escape := false }, ⟨rfl, h.quoted, ?_⟩, ?_, ?_⟩
      · simp [Scan.store, h.len, Piece.value]
      · simpa [Piece.Within] using s.inside_store c
      · intro f
        simp [Piece.text, scanWord, hturn]
  | escaped c =>
      have hturn := s.turn_escaped hp
      rw [h.len] at hturn
      refine ⟨{ s.behindBackslash with word := s.behindBackslash.word.set n c, escape := false },
        ⟨rfl, h.quoted, ?_⟩, ?_, ?_⟩
      · simp [Scan.behindBackslash, Scan.store, h.len, Piece.value]
      · rw [WordBuf.inside_set, s.inside_behindBackslash, and_comm]
        rfl
      · intro f
        simp only [Piece.text, List.cons_append, List.nil_append, hback, scanWord, hturn]
  | kept c =>
      refine ⟨{ s.behindBackslash.store c with escape := false }, ⟨rfl, h.quoted, ?_⟩, ?_, ?_⟩
      · simp [Scan.behindBackslash, Scan.store, h.len, Piece.value]
      · simpa [Piece.Within] using
          (s.behindBackslash.inside_store c).trans s.inside_behindBackslash
      · intro f
        simp only [Piece.text, List.cons_append, List.nil_append, hback, scanWord, s.turn_kept hp]
  | joined =>
      refine ⟨{ s.behindBackslash with len := s.len, escape := false }, ⟨rfl, h.quoted, h.len⟩,
        ?_, ?_⟩
      · simpa [Piece.Within] using s.inside_behindBackslash
      · intro f
        simp only [Piece.text, List.cons_append, List.nil_append, hback, scanWord, s.turn_joined]
  | quote =>
      refine ⟨{ s with quoted := !s.quoted }, ⟨h.escape, ?_, h.len⟩, ?_, ?_⟩
      · simp only [Piece.turns, h.quoted]
      · simp [Piece.Within]
      · intro f
        simp [Piece.text, scanWord, Scan.turn, h.escape]

theorem Scan.Between.pieces {s : Scan} {q : Bool} {n : Nat} {ps : List Piece}
    (h : s.Between q n) (hps : fitting q ps = true) :
    ∃ (s' : Scan) (q' : Bool), s'.Between q' (n + (wordValue ps).length) ∧
      (∀ p, fitting q (ps ++ [p]) = true → p.fits q' = true) ∧
      ∀ f, scanWord s (wordText ps ++ f) = scanWord s' f := by
  induction ps generalizing s q n with
  | nil =>
      exact ⟨s, q, by simpa [wordValue] using h, fun p hp => by simpa [fitting] using hp,
        fun f => rfl⟩
  | cons p ps ih =>
      obtain ⟨hp, hps⟩ : p.fits q = true ∧ fitting (p.turns q) ps = true := by
        simpa [fitting] using hps
      obtain ⟨s₁, h₁, -, hrun₁⟩ := h.piece hp
      obtain ⟨s₂, q₂, h₂, hlast, hrun₂⟩ := ih h₁ hps
      refine ⟨s₂, q₂, ?_, fun x hx => hlast x ?_, ?_⟩
      · simpa [wordValue, Nat.add_assoc] using h₂
      · simpa [fitting, hp] using hx
      · intro f
        rw [wordText, List.flatMap_cons, List.append_assoc, hrun₁]
        exact hrun₂ f

/-! ## Every file is written in pieces -/

/-- What stands in front is one more piece, or the word ends with nothing more stored. -/
theorem next_piece {s : Scan} {q : Bool} {n : Nat} (h : s.Between q n) (f : File) :
    (∃ (p : Piece) (f' : File), p.fits q = true ∧ f = p.text ++ f' ∧ f'.length < f.length) ∨
      ((scanWord s f).1.word.Inside ↔ s.word.Inside) := by
  cases f with
  | nil => exact .inr Iff.rfl
  | cons c f =>
      by_cases hback : c = chBackslash
      · subst hback
        cases f with
        | nil =>
            right
            rw [h.backslash]
            exact s.inside_behindBackslash
        | cons d f =>
            left
            by_cases hn : d = chNewline
            · exact ⟨.joined, f, rfl, by simp [Piece.text, hn], by
                simp only [List.length_cons]; omega⟩
            · by_cases hd : special d = true
              · exact ⟨.escaped d, f, by simp [Piece.fits, hd, hn], rfl, by
                  simp only [List.length_cons]; omega⟩
              · exact ⟨.kept d, f, by simpa [Piece.fits] using hd, rfl, by
                  simp only [List.length_cons]; omega⟩
      · by_cases hquote : c = chQuote
        · exact .inl ⟨.quote, f, rfl, by simp [Piece.text, hquote], by simp⟩
        · by_cases hend : ¬ q = true ∧ (isspace c = true ∨ c = chHash)
          · have hturn : s.turn c = none := by
              rw [Scan.turn, h.escape, if_neg (by simp), if_neg hquote, h.quoted, if_pos hend]
            rw [scanWord, hturn]
            exact .inr Iff.rfl
          · refine .inl ⟨.plain c, f, ?_, rfl, by simp⟩
            have hin : q = true ∨ isspace c = false ∧ c ≠ chHash := by
              rw [not_and, not_or, Bool.not_eq_true (isspace c)] at hend
              exact Classical.or_iff_not_imp_left.mpr hend
            simpa [Piece.fits, hquote, hback] using hin

/-- A store outside is that of an escaped character. -/
theorem outside_piece {s : Scan} {q : Bool} {n : Nat} {f : File} (h : s.Between q n)
    (hs : s.word.Inside) (hout : ¬ (scanWord s f).1.word.Inside) :
    ∃ ps c rest, fitting q (ps ++ [.escaped c]) = true ∧
      maxwordlen ≤ n + (wordValue ps).length ∧ f = wordText (ps ++ [.escaped c]) ++ rest := by
  induction hlen : f.length using Nat.strong_induction_on generalizing s q n f with
  | _ k ih =>
      rcases next_piece h f with ⟨p, f', hp, rfl, hlt⟩ | hend
      · obtain ⟨s', h', hinside, hrun⟩ := h.piece hp
        rw [hrun] at hout
        by_cases hwithin : p.Within n
        · obtain ⟨ps, c, rest, hfit, hlong, rfl⟩ :=
            ih f'.length (hlen ▸ hlt) h' (hinside.mpr ⟨hs, hwithin⟩) hout rfl
          refine ⟨p :: ps, c, rest, ?_, ?_, ?_⟩
          · simpa [fitting, hp] using hfit
          · simpa [wordValue, Nat.add_assoc] using hlong
          · simp [wordText]
        · cases p with
          | escaped c =>
              exact ⟨[], c, f', by simpa [fitting] using hp,
                Nat.le_add_right_of_le (Nat.not_lt.mp hwithin), by simp [wordText]⟩
          | plain _ | kept _ | joined | quote => exact absurd trivial hwithin
      · exact absurd (hend.mpr hs) hout

/-- The first loop has passed over a gap, and over the rest of a comment if it began in one.
What stands behind it is a word. -/
theorem skipBlanks_gaps {comment newline : Bool} {f : File} {c : UInt8}
    (h : (skipBlanks comment newline f).c = some c) :
    ∃ (t : List UInt8) (gs : List Gap), t.all (· ≠ chNewline) = true ∧
      (∀ g ∈ gs, g.fits = true) ∧
      f = (if comment then t ++ [chNewline] else []) ++ (gapText gs ++
        ((if (skipBlanks comment newline f).escape then [chBackslash] else []) ++
          c :: (skipBlanks comment newline f).file)) := by
  fun_induction skipBlanks comment newline f with
  | case1 => cases h
  | case2 newline f ih =>
      obtain ⟨t, gs, -, hgs, hf⟩ := ih h
      exact ⟨[], gs, rfl, hgs, by simpa using hf⟩
  | case3 newline d f hn ih =>
      obtain ⟨t, gs, ht, hgs, hf⟩ := ih h
      exact ⟨d :: t, gs, by simpa [hn] using ht, hgs, by simpa using hf⟩
  | case4 => cases h
  | case5 newline f ih =>
      obtain ⟨t, gs, -, hgs, hf⟩ := ih h
      refine ⟨[], .joined :: gs, rfl, by simpa [Gap.fits] using hgs, ?_⟩
      simpa [gapText, Gap.text] using hf
  | case6 newline d f hn =>
      obtain rfl := Option.some.inj h
      exact ⟨[], [], rfl, by simp, by simp [gapText]⟩
  | case7 newline f hb ih =>
      obtain ⟨t, gs, -, hgs, hf⟩ := ih h
      refine ⟨[], .newline :: gs, rfl, by simpa [Gap.fits] using hgs, ?_⟩
      simpa [gapText, Gap.text] using hf
  | case8 newline f hb hn ih =>
      obtain ⟨t, gs, ht, hgs, hf⟩ := ih h
      refine ⟨[], .comment t :: gs, rfl, List.forall_mem_cons.mpr ⟨ht, hgs⟩, ?_⟩
      simpa [gapText, Gap.text] using hf
  | case9 newline d f hb hn hh hs ih =>
      obtain ⟨t, gs, -, hgs, hf⟩ := ih h
      refine ⟨[], .blank d :: gs, rfl, by simpa [Gap.fits, hs, hn] using hgs, ?_⟩
      simpa [gapText, Gap.text] using hf
  | case10 newline d f hb hn hh hs =>
      obtain rfl := Option.some.inj h
      exact ⟨[], [], rfl, by simp, by simp [gapText]⟩

/-! ## One call -/

theorem Scan.close_inside (s : Scan) : s.close.Inside ↔ s.word.Inside := by
  rw [close]
  split_ifs with h
  · rw [WordBuf.inside_set]
    exact and_iff_right (by decide)
  · rw [WordBuf.inside_set]
    exact and_iff_right (Nat.not_le.mp h)

theorem Scan.close_null (s : Scan) : ∃ i < maxwordlen, s.close.octets i = 0 := by
  rw [close]
  split_ifs with h
  · exact ⟨maxwordlen - 1, by decide, by simp [WordBuf.set, Buf.set8_same]⟩
  · exact ⟨s.len, Nat.not_le.mp h, by simp [WordBuf.set, Buf.set8_same]⟩

theorem Scan.start_between (word : WordBuf) : (Scan.start word).Between false 0 := ⟨rfl, rfl, rfl⟩

/-- A word is read from its first octet, also if that is a backslash. -/
theorem getword_start {f : File} {c : UInt8} (hc : (skipBlanks false false f).c = some c)
    (word : WordBuf) :
    (getword word f).word = (scanWord (Scan.start word)
      ((if (skipBlanks false false f).escape then [chBackslash] else []) ++
        c :: (skipBlanks false false f).file)).1.close := by
  rw [getword]
  generalize skipBlanks false false f = sk at hc
  obtain ⟨newline, escape, c', file⟩ := sk
  obtain rfl : c' = some c := hc
  cases escape with
  | false => rfl
  | true =>
      simp only [if_true, List.cons_append, List.nil_append,
        (Scan.start_between word).backslash]
      rfl

/-- Hidden line breaks stand in front of the first piece that is none. -/
theorem joined_first (ps : List Piece) {q : Piece} (hq : q ≠ .joined) :
    ∃ n qs p rest, ps = List.replicate n .joined ++ qs ∧ p ≠ Piece.joined ∧
      qs ++ [q] = p :: rest := by
  induction ps with
  | nil => exact ⟨0, [], q, [], rfl, hq, rfl⟩
  | cons p ps ih =>
      by_cases hp : p = .joined
      · obtain ⟨n, qs, p', rest, hps, hp', hqs⟩ := ih
        exact ⟨n + 1, qs, p', rest, by rw [hps, hp]; rfl, hp', hqs⟩
      · exact ⟨0, p :: ps, p, ps ++ [q], rfl, hp, rfl⟩

theorem fitting_joined (n : Nat) (q : Bool) (ps : List Piece) :
    fitting q (List.replicate n .joined ++ ps) = fitting q ps := by
  induction n with
  | zero => rfl
  | succ n ih => simpa [List.replicate_succ, fitting, Piece.fits, Piece.turns] using ih

theorem wordValue_joined (n : Nat) : wordValue (List.replicate n .joined) = [] := by
  simp [wordValue, List.flatMap_eq_nil_iff, List.mem_replicate, Piece.value]

theorem wordText_joined (n : Nat) :
    wordText (List.replicate n .joined) = gapText (List.replicate n .joined) := by
  simp [wordText, gapText, List.flatMap_replicate, Piece.text, Gap.text]

theorem fitting_append {q : Bool} {ps qs : List Piece} (h : fitting q (ps ++ qs) = true) :
    fitting q ps = true := by
  induction ps generalizing q with
  | nil => rfl
  | cons p ps ih =>
      obtain ⟨hp, hps⟩ : p.fits q = true ∧ fitting (p.turns q) (ps ++ qs) = true := by
        simpa [fitting] using h
      simpa [fitting, hp] using ih hps

theorem overlong_outside {f : File} (h : Overlong f) (word : WordBuf) :
    ¬ (getword word f).word.Inside := by
  obtain ⟨gs, ps, c, rest, hgs, hfit, hlong, rfl⟩ := h
  obtain ⟨n, qs, p, tail, rfl, hp, hqs⟩ := joined_first ps (q := .escaped c) (by simp)
  rw [List.append_assoc, fitting_joined] at hfit
  have hvalue : wordValue (List.replicate n .joined ++ qs) = wordValue qs := by
    rw [wordValue, List.flatMap_append, ← wordValue, wordValue_joined, List.nil_append, wordValue]
  have hgap : ∀ g ∈ gs ++ List.replicate n .joined, Gap.fits g = true := by
    intro g hg
    rcases List.mem_append.mp hg with hg | hg
    · exact hgs g hg
    · rw [List.eq_of_mem_replicate hg]
      rfl
  have hfile : gapText gs ++ (wordText (List.replicate n .joined ++ qs ++ [.escaped c]) ++ rest) =
      gapText (gs ++ List.replicate n .joined) ++ (p.text ++ (wordText tail ++ rest)) := by
    have hjoined : wordText (List.replicate n .joined ++ p :: tail) =
        gapText (List.replicate n .joined) ++ (p.text ++ wordText tail) := by
      rw [← wordText_joined]
      simp [wordText]
    rw [List.append_assoc _ qs, hqs, hjoined]
    simp [gapText]
  have htext : p.text ++ (wordText tail ++ rest) =
      wordText qs ++ ((Piece.escaped c).text ++ rest) := by
    have h := congrArg (fun l => wordText l ++ rest) hqs
    simpa [wordText] using h.symm
  have hfirst : p.fits false = true := by
    rw [hqs] at hfit
    simp only [fitting, Bool.and_eq_true] at hfit
    exact hfit.1
  obtain ⟨s₁, q₁, h₁, hlast, hrun₁⟩ :=
    (Scan.start_between word).pieces (fitting_append hfit)
  obtain ⟨s₂, -, hinside, hrun₂⟩ := h₁.piece (hlast _ hfit)
  intro hin
  rw [hfile, getword_piece hfirst hp hgap] at hin
  simp only [Scan.close_inside, htext, hrun₁, hrun₂] at hin
  have hwithin : 0 + (wordValue qs).length < maxwordlen :=
    (hinside.mp (inside_of_scanWord hin)).2
  rw [hvalue] at hlong
  omega

theorem outside_overlong {f : File} {word : WordBuf} (hword : word.Inside)
    (h : ¬ (getword word f).word.Inside) : Overlong f := by
  cases hc : (skipBlanks false false f).c with
  | none =>
      refine absurd ?_ h
      simp only [getword, hc]
      split_ifs
      · exact hword.set (by decide) _
      · exact hword
  | some c =>
      rw [getword_start hc, Scan.close_inside] at h
      obtain ⟨t, gs, -, hgs, hf⟩ := skipBlanks_gaps hc
      obtain ⟨ps, d, rest, hfit, hlong, hrest⟩ :=
        outside_piece (Scan.start_between word) hword h
      refine ⟨gs, ps, d, rest, hgs, hfit, by simpa using hlong, ?_⟩
      rw [← hrest]
      simpa using hf

theorem getword_null {f : File} {word : WordBuf} (h : (getword word f).ret = true) :
    ∃ i < maxwordlen, (getword word f).word.octets i = 0 := by
  rw [getword] at h ⊢
  cases hc : (skipBlanks false false f).c with
  | none => simp [hc] at h
  | some c => exact Scan.close_null _

/-- A call keeps to the array, whatever the file, unless the first word of the file has an
escaped character that `MAXWORDLEN` octets of the word or more stand in front of. -/
theorem getword_inside_iff (octets : Buf) (f : File) :
    (getword ⟨octets, []⟩ f).StaysInside ↔ ¬ Overlong f := by
  constructor
  · intro hin hlong
    exact overlong_outside hlong _ hin.1
  · intro hshort
    refine ⟨?_, getword_null⟩
    by_contra hout
    exact hshort (outside_overlong (by simp [WordBuf.Inside]) hout)

/-- As many octets as the array has, then an escaped quote. -/
theorem getword_stores_outside :
    ¬ (getword ⟨fun _ => 0, []⟩ (List.replicate 1024 97 ++ [92, 34])).StaysInside := by
  intro hin
  refine overlong_outside ⟨[], List.replicate 1024 (.plain 97), 34, [], by simp, ?_, ?_, ?_⟩ _ hin.1
  · decide +kernel
  · decide +kernel
  · decide +kernel

end VxWorks.Ppp
