import VxWorks.Lib.Buffer
import VxWorks.Lib.Scan
import Mathlib.Data.List.TakeWhile

/-!
# Words of an options file (`getword` of `options.c`)

`getword` is a scanner with one octet of lookahead. Its first loop passes over
white-space and comments, its second one collects a word, in and out of quotes,
with `\` before an octet that would otherwise end it. Both loops are folds over
what is left of the file, and a call returns what is left behind it, which is
all that `ungetc` is for.

`getword_roundTrip` is about the other direction. A file is written piece by
piece: an octet by itself, an octet behind a backslash, a quote that turns
quoting on or off, a line break hidden by a backslash, which is nothing at all.
Between the words stand gaps. Whatever the mixture, the calls give the words
back, and the newline flag is what stood in the gap before the word. The last
part is what the callers need: the words of a file do not depend on what was in
the array before, and a call that finds one makes the file shorter.

Every store into the caller's array is recorded with its index. An error of the
stream itself (`ferror`) kills the daemon and is not modelled.
-/

namespace VxWorks.Ppp

open VxWorks.Lib

/-- Max length of word in file, with the closing null. -/
def maxwordlen : Nat := 1024

/-- What is left of a stream to read. -/
abbrev File : Type := List UInt8

def chNewline : UInt8 := 10
def chQuote : UInt8 := 34
def chHash : UInt8 := 35
def chBackslash : UInt8 := 92

def isspace (c : UInt8) : Bool := c = 32 || (9 ≤ c && c ≤ 13)

/-- The caller's `word` and the indexes that have been stored to, last one first. -/
structure WordBuf where
  octets : Buf
  stores : List Nat

def WordBuf.set (w : WordBuf) (i : Nat) (c : UInt8) : WordBuf where
  octets := w.octets.set8 i c
  stores := i :: w.stores

/-- The string in the array. -/
def WordBuf.string (w : WordBuf) : List UInt8 := (w.octets.take maxwordlen).takeWhile (· ≠ 0)

/-! ## The function -/

/-- Where the first loop stops: `c` is the octet it has in hand, none at the end of the
file. After a backslash `escape` is set and the backslash is already stored. -/
structure Skipped where
  newline : Bool
  escape : Bool
  c : Option UInt8
  file : File
deriving DecidableEq

/-- The first loop. `comment` says that it is inside the loop that ignores a comment. -/
def skipBlanks : Bool → Bool → File → Skipped
  | _, newline, [] => ⟨newline, false, none, []⟩
  | true, newline, c :: f =>
      if c = chNewline then skipBlanks false true f else skipBlanks true newline f
  | false, newline, c :: f =>
      if c = chBackslash then
        match f with
        | [] => ⟨newline, true, none, []⟩
        | d :: f' =>
            if d = chNewline then skipBlanks false newline f'
            else ⟨newline, true, some d, f'⟩
      else if c = chNewline then skipBlanks false true f
      else if c = chHash then skipBlanks true newline f
      else if isspace c then skipBlanks false newline f
      else ⟨newline, false, some c, f⟩

/-- The variables of the second loop. -/
structure Scan where
  word : WordBuf
  len : Nat
  escape : Bool
  quoted : Bool

/-- `if (len < MAXWORDLEN-1) word[len] = c; ++len;` -/
def Scan.store (s : Scan) (c : UInt8) : Scan :=
  { s with
    word := if s.len < maxwordlen - 1 then s.word.set s.len c else s.word
    len := s.len + 1 }

/-- One round of the second loop; none where it puts `c` back and breaks. -/
def Scan.turn (s : Scan) (c : UInt8) : Option Scan :=
  if s.escape then
    if c = chNewline then some { s with len := s.len - 1, escape := false }
    else if c = chQuote ∨ isspace c ∨ c = chBackslash then
      some { s with word := s.word.set (s.len - 1) c, escape := false }
    else some { s.store c with escape := false }
  else if c = chQuote then some { s with quoted := !s.quoted }
  else if ¬ s.quoted ∧ (isspace c ∨ c = chHash) then none
  else some { s.store c with escape := c = chBackslash }

/-- The second loop, from the octet in hand on. -/
def scanWord : Scan → File → Scan × File
  | s, [] => (s, [])
  | s, c :: f =>
      match s.turn c with
      | none => (s, c :: f)
      | some s' => scanWord s' f

/-- What a call returns and leaves behind. -/
structure GotWord where
  ret : Bool
  newlinep : Bool
  word : WordBuf
  file : File

/-- The string is closed, in the last place if it is too long. -/
def Scan.close (s : Scan) : WordBuf :=
  if maxwordlen ≤ s.len then s.word.set (maxwordlen - 1) 0 else s.word.set s.len 0

def getword (word : WordBuf) (f : File) : GotWord :=
  let sk := skipBlanks false false f
  let word := if sk.escape then word.set 0 chBackslash else word
  match sk.c with
  | none => ⟨false, false, word, sk.file⟩
  | some c =>
      let r := scanWord ⟨word, if sk.escape then 1 else 0, sk.escape, false⟩ (c :: sk.file)
      ⟨true, sk.newline, r.1.close, r.2⟩

/-- A word and whether it is the first one of a line. -/
structure Token where
  word : List UInt8
  newline : Bool
deriving DecidableEq, Repr

def GotWord.token (g : GotWord) : Option Token :=
  if g.ret then some ⟨g.word.string, g.newlinep⟩ else none

/-- Successive calls with one array. -/
def getwords : Nat → WordBuf → File → List (Option Token)
  | 0, _, _ => []
  | n + 1, word, f =>
      (getword word f).token :: getwords n (getword word f).word (getword word f).file

/-! ## Written words -/

/-- What a word is written with. -/
inductive Piece where
  | plain (c : UInt8)
  | escaped (c : UInt8)
  | kept (c : UInt8)
  | joined
  | quote
deriving DecidableEq, Repr

def Piece.text : Piece → File
  | .plain c => [c]
  | .escaped c => [chBackslash, c]
  | .kept c => [chBackslash, c]
  | .joined => [chBackslash, chNewline]
  | .quote => [chQuote]

/-- What the piece stands for. -/
def Piece.value : Piece → List UInt8
  | .plain c => [c]
  | .escaped c => [c]
  | .kept c => [chBackslash, c]
  | .joined => []
  | .quote => []

/-- The octets that a backslash takes the meaning from. -/
def special (c : UInt8) : Bool := c = chQuote || isspace c || c = chBackslash

/-- Where the piece may stand, in or out of quotes. -/
def Piece.fits (quoted : Bool) : Piece → Bool
  | .plain c => c ≠ chQuote && c ≠ chBackslash && (quoted || (!isspace c && c ≠ chHash))
  | .escaped c => special c && c ≠ chNewline
  | .kept c => !special c
  | .joined => true
  | .quote => true

def Piece.turns (quoted : Bool) : Piece → Bool
  | .quote => !quoted
  | _ => quoted

/-- The pieces fit one after the other and the quotes are closed at the end. -/
def wellWritten : Bool → List Piece → Bool
  | quoted, [] => !quoted
  | quoted, p :: ps => p.fits quoted && wellWritten (p.turns quoted) ps

def wordText (ps : List Piece) : File := ps.flatMap Piece.text
def wordValue (ps : List Piece) : List UInt8 := ps.flatMap Piece.value

/-- What may stand between words. -/
inductive Gap where
  | blank (c : UInt8)
  | newline
  | comment (text : List UInt8)
  | joined
deriving DecidableEq, Repr

def Gap.text : Gap → File
  | .blank c => [c]
  | .newline => [chNewline]
  | .comment t => chHash :: t ++ [chNewline]
  | .joined => [chBackslash, chNewline]

def Gap.fits : Gap → Bool
  | .blank c => isspace c && c ≠ chNewline
  | .newline => true
  | .comment t => t.all (· ≠ chNewline)
  | .joined => true

/-- A comment ends with its line. -/
def Gap.breaks : Gap → Bool
  | .blank _ => false
  | .newline => true
  | .comment _ => true
  | .joined => false

def gapText (gs : List Gap) : File := gs.flatMap Gap.text

/-- A word and the gap before it. -/
structure Written where
  gap : List Gap
  pieces : List Piece

/-- A word is written with something in it, is short enough and has no null. -/
structure Written.Ok (w : Written) : Prop where
  gap : ∀ g ∈ w.gap, g.fits = true
  written : wellWritten false w.pieces = true
  visible : ∃ p ∈ w.pieces, p ≠ .joined
  short : (wordValue w.pieces).length < maxwordlen
  nonzero : ∀ c ∈ wordValue w.pieces, c ≠ 0

def Written.text (w : Written) : File := gapText w.gap ++ wordText w.pieces

def Written.token (w : Written) : Token := ⟨wordValue w.pieces, w.gap.any Gap.breaks⟩

/-- A gap that keeps two words apart. -/
def Written.Apart (w : Written) : Prop := ∃ g ∈ w.gap, g ≠ .joined

/-! ## Gaps are passed over -/

theorem skipBlanks_comment {t : List UInt8} (ht : t.all (· ≠ chNewline) = true)
    (newline : Bool) (f : File) :
    skipBlanks true newline (t ++ chNewline :: f) = skipBlanks false true f := by
  induction t with
  | nil => simp [skipBlanks]
  | cons c t ih =>
      obtain ⟨hc, ht⟩ : c ≠ chNewline ∧ t.all (· ≠ chNewline) = true := by simpa using ht
      rw [List.cons_append, skipBlanks, if_neg hc]
      exact ih ht

theorem skipBlanks_cons {c : UInt8} (h : c ≠ chBackslash) (newline : Bool) (f : File) :
    skipBlanks false newline (c :: f) =
      if c = chNewline then skipBlanks false true f
      else if c = chHash then skipBlanks true newline f
      else if isspace c then skipBlanks false newline f
      else ⟨newline, false, some c, f⟩ := by
  cases f <;> simp only [skipBlanks, if_neg h]

theorem skipBlanks_one {g : Gap} (hg : g.fits = true) (newline : Bool) (f : File) :
    skipBlanks false newline (g.text ++ f) = skipBlanks false (newline || g.breaks) f := by
  cases g with
  | blank c =>
      obtain ⟨hs, hn⟩ : isspace c = true ∧ c ≠ chNewline := by simpa [Gap.fits] using hg
      have hb : c ≠ chBackslash := by rintro rfl; exact absurd hs (by decide)
      have hh : c ≠ chHash := by rintro rfl; exact absurd hs (by decide)
      simp [Gap.text, Gap.breaks, skipBlanks_cons hb, hs, hn, hh]
  | newline =>
      have hb : chNewline ≠ chBackslash := by decide
      simp [Gap.text, Gap.breaks, skipBlanks_cons hb]
  | comment t =>
      have hb : chHash ≠ chBackslash := by decide
      have hn : chHash ≠ chNewline := by decide
      simp [Gap.text, Gap.breaks, skipBlanks_cons hb, hn, skipBlanks_comment hg]
  | joined => simp [Gap.text, Gap.breaks, skipBlanks]

theorem skipBlanks_gap {gs : List Gap} (hgs : ∀ g ∈ gs, g.fits = true) (newline : Bool)
    (f : File) :
    skipBlanks false newline (gapText gs ++ f) =
      skipBlanks false (newline || gs.any Gap.breaks) f := by
  induction gs generalizing newline with
  | nil => simp [gapText]
  | cons g gs ih =>
      rw [gapText, List.flatMap_cons, List.append_assoc,
        skipBlanks_one (hgs g List.mem_cons_self), ← gapText,
        ih fun x hx => hgs x (List.mem_cons_of_mem g hx), List.any_cons, Bool.or_assoc]

/-! ## Pieces are collected -/

/-- The second loop has collected `v` and is between two pieces. -/
structure Scan.Has (s : Scan) (quoted : Bool) (v : List UInt8) : Prop where
  escape : s.escape = false
  quoted : s.quoted = quoted
  word : s.word.octets.take s.len = v

theorem Scan.Has.len {s : Scan} {q : Bool} {v : List UInt8} (h : s.Has q v) :
    s.len = v.length := by
  rw [← h.word, Buf.length_take]

theorem take_set8 (b : Buf) (n : Nat) (c : UInt8) : (b.set8 n c).take n = b.take n :=
  Buf.take_congr fun _ hi => Buf.set8_of_ne c (by omega)

theorem take_set8_succ (b : Buf) (n : Nat) (c : UInt8) :
    (b.set8 n c).take (n + 1) = b.take n ++ [c] := by
  rw [Buf.take, List.range_succ, List.map_append, ← Buf.take, take_set8]
  simp [Buf.set8_same]

/-- A character that stands for itself goes to the end of the word. -/
theorem Scan.turn_plain {s : Scan} {q : Bool} {c : UInt8} (hescape : s.escape = false)
    (hquoted : s.quoted = q) (hc : (Piece.plain c).fits q = true) :
    s.turn c = some { s.store c with escape := false } := by
  obtain ⟨⟨hquote, hback⟩, hin⟩ :
      (c ≠ chQuote ∧ c ≠ chBackslash) ∧ (q = true ∨ isspace c = false ∧ c ≠ chHash) := by
    simpa [Piece.fits] using hc
  have hstay : ¬ (¬ s.quoted = true ∧ (isspace c = true ∨ c = chHash)) := by
    rw [hquoted]
    rintro ⟨hq, hend⟩
    rcases hin with hin | ⟨hs, hh⟩
    · exact hq hin
    · rcases hend with hend | hend
      · rw [hs] at hend; cases hend
      · exact hh hend
  rw [Scan.turn, hescape, if_neg (by simp), if_neg hquote, if_neg hstay]
  simp [hback]

/-- A backslash is stored, if there is room, and what comes next is escaped. -/
def Scan.behindBackslash (s : Scan) : Scan := { s.store chBackslash with escape := true }

@[simp] theorem Scan.behindBackslash_escape (s : Scan) : s.behindBackslash.escape = true := rfl

/-- An escaped character takes the place of the backslash. -/
theorem Scan.turn_escaped (s : Scan) {q : Bool} {c : UInt8}
    (hc : (Piece.escaped c).fits q = true) :
    s.behindBackslash.turn c = some
      { s.behindBackslash with word := s.behindBackslash.word.set s.len c, escape := false } := by
  obtain ⟨hspecial, hn⟩ : special c = true ∧ c ≠ chNewline := by
    simpa [Piece.fits] using hc
  have hput : c = chQuote ∨ isspace c = true ∨ c = chBackslash := by
    simpa [special, or_assoc] using hspecial
  rw [Scan.turn, if_pos s.behindBackslash_escape, if_neg hn, if_pos hput]
  simp [Scan.behindBackslash, Scan.store]

/-- Any other goes behind it. -/
theorem Scan.turn_kept (s : Scan) {q : Bool} {c : UInt8} (hc : (Piece.kept c).fits q = true) :
    s.behindBackslash.turn c = some { s.behindBackslash.store c with escape := false } := by
  have hplain : ¬ (c = chQuote ∨ isspace c = true ∨ c = chBackslash) := by
    simpa [Piece.fits, special, and_assoc] using hc
  have hn : c ≠ chNewline := by
    rintro rfl
    exact hplain (.inr (.inl (by decide)))
  rw [Scan.turn, if_pos s.behindBackslash_escape, if_neg hn, if_neg hplain]

/-- A newline takes the backslash away again. -/
theorem Scan.turn_joined (s : Scan) :
    s.behindBackslash.turn chNewline =
      some { s.behindBackslash with len := s.len, escape := false } := by
  rw [Scan.turn, if_pos s.behindBackslash_escape, if_pos rfl]
  rfl

theorem scanWord_backslash {s : Scan} {q : Bool} {v : List UInt8} (h : s.Has q v) (f : File) :
    scanWord s (chBackslash :: f) = scanWord s.behindBackslash f := by
  have hgoes : ¬ (isspace chBackslash = true ∨ chBackslash = chHash) := by decide
  have hturn : s.turn chBackslash = some s.behindBackslash := by
    rw [Scan.turn, h.escape, if_neg (by simp), if_neg (by decide), if_neg fun hend => hgoes hend.2]
    simp [Scan.behindBackslash]
  rw [scanWord, hturn]

theorem scanWord_piece {s : Scan} {q : Bool} {v : List UInt8} {p : Piece} (h : s.Has q v)
    (hp : p.fits q = true) (hlen : (v ++ p.value).length < maxwordlen) :
    ∃ s' : Scan, s'.Has (p.turns q) (v ++ p.value) ∧
      ∀ f, scanWord s (p.text ++ f) = scanWord s' f := by
  have hback := scanWord_backslash h
  cases p with
  | plain c =>
      simp only [Piece.value, List.length_append, List.length_singleton] at hlen
      have hroom : v.length < maxwordlen - 1 := by omega
      have hturn := Scan.turn_plain h.escape h.quoted hp
      refine ⟨{ s.store c with escape := false }, ⟨rfl, h.quoted, ?_⟩, ?_⟩
      · simp only [Scan.store, h.len, if_pos hroom, WordBuf.set, Piece.value]
        rw [take_set8_succ, ← h.len, h.word]
      · intro f
        simp [Piece.text, scanWord, hturn]
  | escaped c =>
      simp only [Piece.value, List.length_append, List.length_singleton] at hlen
      have hroom : v.length < maxwordlen - 1 := by omega
      refine ⟨{ s.behindBackslash with
        word := s.behindBackslash.word.set s.len c, escape := false }, ⟨rfl, h.quoted, ?_⟩,
        ?_⟩
      · simp only [Scan.behindBackslash, Scan.store, h.len, if_pos hroom, WordBuf.set, Piece.value]
        rw [take_set8_succ, take_set8, ← h.len, h.word]
      · intro f
        simp only [Piece.text, List.cons_append, List.nil_append, hback, scanWord,
          s.turn_escaped hp]
  | kept c =>
      simp only [Piece.value, List.length_append, List.length_cons, List.length_nil] at hlen
      have hroom : v.length < maxwordlen - 1 := by omega
      have hnext : v.length + 1 < maxwordlen - 1 := by omega
      refine ⟨{ s.behindBackslash.store c with escape := false }, ⟨rfl, h.quoted, ?_⟩, ?_⟩
      · simp only [Scan.behindBackslash, Scan.store, h.len, if_pos hroom, if_pos hnext, WordBuf.set,
          Piece.value]
        rw [take_set8_succ, take_set8_succ, ← h.len, h.word, List.append_assoc]
        rfl
      · intro f
        simp only [Piece.text, List.cons_append, List.nil_append, hback, scanWord, s.turn_kept hp]
  | joined =>
      refine ⟨{ s.behindBackslash with len := s.len, escape := false }, ⟨rfl, h.quoted, ?_⟩, ?_⟩
      · -- the backslash is behind the word, or was not stored
        simp only [Scan.behindBackslash, Scan.store, Piece.value, List.append_nil]
        split
        · exact (take_set8 ..).trans h.word
        · exact h.word
      · intro f
        simp only [Piece.text, List.cons_append, List.nil_append, hback, scanWord, s.turn_joined]
  | quote =>
      refine ⟨{ s with quoted := !s.quoted }, ?_, ?_⟩
      · refine ⟨h.escape, ?_, ?_⟩
        · simp only [Piece.turns, h.quoted]
        · simpa only [Piece.value, List.append_nil] using h.word
      · intro f
        simp [Piece.text, scanWord, Scan.turn, h.escape]

theorem scanWord_pieces {s : Scan} {q : Bool} {v : List UInt8} {ps : List Piece}
    (h : s.Has q v) (hps : wellWritten q ps = true)
    (hlen : (v ++ wordValue ps).length < maxwordlen) :
    ∃ s' : Scan, s'.Has false (v ++ wordValue ps) ∧
      ∀ f, scanWord s (wordText ps ++ f) = scanWord s' f := by
  induction ps generalizing s q v with
  | nil =>
      obtain rfl : q = false := by simpa [wellWritten] using hps
      exact ⟨s, by simpa [wordValue] using h, fun f => by simp [wordText]⟩
  | cons p ps ih =>
      obtain ⟨hp, hps⟩ : p.fits q = true ∧ wellWritten (p.turns q) ps = true := by
        simpa [wellWritten] using hps
      have hvalue : v ++ wordValue (p :: ps) = v ++ p.value ++ wordValue ps := by
        simp [wordValue]
      rw [hvalue] at hlen ⊢
      obtain ⟨s₁, h₁, hrun₁⟩ := scanWord_piece h hp (by
        rw [List.length_append] at hlen
        omega)
      obtain ⟨s₂, h₂, hrun₂⟩ := ih h₁ hps hlen
      refine ⟨s₂, h₂, ?_⟩
      intro f
      rw [wordText, List.flatMap_cons, List.append_assoc, hrun₁]
      exact hrun₂ f

/-! ## A word ends with its gap -/

/-- The word ends at the first octet of a gap that is not a hidden line break. The next call
finds a gap that says the same about lines. -/
theorem scanWord_gap {s : Scan} {v : List UInt8} {gs : List Gap} {f : File}
    (h : s.Has false v) (hlen : v.length < maxwordlen) (hgs : ∀ g ∈ gs, g.fits = true)
    (hend : (∃ g ∈ gs, g ≠ .joined) ∨ f = []) :
    ∃ s' : Scan, ∃ gs' : List Gap, s'.Has false v ∧ (∀ g ∈ gs', g.fits = true) ∧
      gs'.any Gap.breaks = gs.any Gap.breaks ∧
      scanWord s (gapText gs ++ f) = (s', gapText gs' ++ f) := by
  induction gs generalizing s with
  | nil =>
      obtain rfl : f = [] := by simpa using hend
      exact ⟨s, [], h, by simp, rfl, rfl⟩
  | cons g gs ih =>
      have hrest := fun x hx => hgs x (List.mem_cons_of_mem g hx)
      by_cases hg : g = .joined
      · subst hg
        obtain ⟨s₁, h₁, hrun⟩ := scanWord_piece (p := .joined) h rfl (by
          simpa [Piece.value] using hlen)
        simp only [Piece.value, List.append_nil] at h₁
        obtain ⟨s', gs', hs', hfits, hbreaks, hscan⟩ := ih h₁ hrest (by
          simpa using hend)
        refine ⟨s', gs', hs', hfits, by simpa [Gap.breaks] using hbreaks, ?_⟩
        rw [← hscan, ← hrun]
        simp [gapText, Gap.text, Piece.text]
      · refine ⟨s, g :: gs, h, hgs, rfl, ?_⟩
        have hstop : ∀ c l, (isspace c = true ∨ c = chHash) → c ≠ chQuote →
            scanWord s (c :: l) = (s, c :: l) := by
          intro c l hc hq
          simp [scanWord, Scan.turn, h.escape, h.quoted, hq, hc]
        cases g with
        | blank c =>
            have hs : isspace c = true := by
              have := hgs _ List.mem_cons_self
              simp only [Gap.fits, Bool.and_eq_true] at this
              exact this.1
            have hq : c ≠ chQuote := by rintro rfl; exact absurd hs (by decide)
            exact hstop c _ (.inl hs) hq
        | newline => exact hstop chNewline _ (.inl (by decide)) (by decide)
        | comment t => exact hstop chHash _ (.inr rfl) (by decide)
        | joined => exact absurd rfl hg

/-! ## One call -/

theorem WordBuf.string_set (w : WordBuf) {n : Nat} (hn : n < maxwordlen) :
    (w.set n 0).string = (w.octets.take n).takeWhile (· ≠ 0) := by
  obtain ⟨k, hk⟩ : ∃ k, maxwordlen = n + (k + 1) := ⟨maxwordlen - n - 1, by omega⟩
  have htake : (w.octets.set8 n 0).take maxwordlen =
      w.octets.take n ++ 0 :: (w.octets.set8 n 0).slice (n + 1) k := by
    rw [hk, ← Buf.slice_zero_eq_take, Buf.slice_add, Buf.slice_succ, Buf.slice_zero_eq_take,
      take_set8, Nat.zero_add, Buf.set8_same]
  rw [string, set, htake, takeWhile_append_stop (p := fun c : UInt8 => decide (c ≠ 0)) rfl]

theorem Scan.Has.string {s : Scan} {q : Bool} {v : List UInt8} (h : s.Has q v)
    (hlen : v.length < maxwordlen) (hv : ∀ c ∈ v, c ≠ 0) : s.close.string = v := by
  have hshort : ¬ maxwordlen ≤ s.len := by rw [h.len]; omega
  rw [Scan.close, if_neg hshort, WordBuf.string_set _ (by omega), h.word,
    List.takeWhile_eq_self_iff]
  simpa using hv

/-- The second loop before it has read anything. -/
def Scan.start (word : WordBuf) : Scan := ⟨word, 0, false, false⟩

theorem Scan.has_start (word : WordBuf) : (Scan.start word).Has false [] :=
  ⟨rfl, rfl, rfl⟩

/-- The call finds a word behind a gap and reads it from its first octet. -/
theorem getword_piece {p : Piece} (hfits : p.fits false = true) (hp : p ≠ .joined)
    {gs : List Gap} (hgs : ∀ g ∈ gs, g.fits = true) (word : WordBuf) (f : File) :
    getword word (gapText gs ++ (p.text ++ f)) =
      let r := scanWord (Scan.start word) (p.text ++ f)
      ⟨true, gs.any Gap.breaks, r.1.close, r.2⟩ := by
  have hgap := skipBlanks_gap hgs false (p.text ++ f)
  have hback : ∀ c, c ≠ chNewline → p.text = [chBackslash, c] →
      getword word (gapText gs ++ (p.text ++ f)) =
        let r := scanWord (Scan.start word) (p.text ++ f)
        ⟨true, gs.any Gap.breaks, r.1.close, r.2⟩ := by
    intro c hc htext
    have hskip : skipBlanks false (gs.any Gap.breaks) (chBackslash :: c :: f) =
        ⟨gs.any Gap.breaks, true, some c, f⟩ := by
      simp [skipBlanks, hc]
    simp only [htext, List.cons_append, List.nil_append, Bool.false_or, hskip] at hgap ⊢
    simp only [getword, hgap, scanWord_backslash (Scan.has_start word)]
    rfl
  have hcons : ∀ c, c ≠ chBackslash → c ≠ chNewline → c ≠ chHash → isspace c = false →
      p.text = [c] →
      getword word (gapText gs ++ (p.text ++ f)) =
        let r := scanWord (Scan.start word) (p.text ++ f)
        ⟨true, gs.any Gap.breaks, r.1.close, r.2⟩ := by
    intro c hb hn hh hs htext
    have hskip : skipBlanks false (gs.any Gap.breaks) (c :: f) =
        ⟨gs.any Gap.breaks, false, some c, f⟩ := by
      simp [skipBlanks_cons hb, hn, hh, hs]
    simp only [htext, List.cons_append, List.nil_append, Bool.false_or, hskip] at hgap ⊢
    simp only [getword, hgap]
    rfl
  have hspace : ∀ c, isspace c = false → c ≠ chNewline := by
    rintro c hs rfl
    exact absurd hs (by decide)
  cases p with
  | plain c =>
      obtain ⟨⟨hq, hb⟩, hs, hh⟩ :
          (c ≠ chQuote ∧ c ≠ chBackslash) ∧ isspace c = false ∧ c ≠ chHash := by
        simpa [Piece.fits] using hfits
      exact hcons c hb (hspace c hs) hh hs rfl
  | escaped c =>
      refine hback c ?_ rfl
      simp only [Piece.fits, Bool.and_eq_true, decide_eq_true_eq] at hfits
      exact hfits.2
  | kept c =>
      refine hback c (hspace c ?_) rfl
      simp only [Piece.fits, special, Bool.not_eq_true', Bool.or_eq_false_iff] at hfits
      exact hfits.1.2
  | joined => exact absurd rfl hp
  | quote => exact hcons chQuote (by decide) (by decide) (by decide) (by decide) rfl

/-- Hidden line breaks in front of a word belong to the gap before it. -/
theorem first_piece {ps : List Piece} (hps : wellWritten false ps = true)
    (hvisible : ∃ p ∈ ps, p ≠ .joined) :
    ∃ n p qs, p ≠ .joined ∧ wellWritten false (p :: qs) = true ∧
      wordValue (p :: qs) = wordValue ps ∧
      wordText ps = gapText (List.replicate n .joined) ++ wordText (p :: qs) := by
  induction ps with
  | nil => simp at hvisible
  | cons p ps ih =>
      by_cases hp : p = .joined
      · subst hp
        obtain ⟨n, q, qs, hq, hqs, hvalue, htext⟩ := ih
          (by simpa [wellWritten, Piece.fits, Piece.turns] using hps)
          (by simpa using hvisible)
        refine ⟨n + 1, q, qs, hq, hqs, hvalue, ?_⟩
        rw [wordText, List.flatMap_cons, ← wordText, htext]
        rfl
      · exact ⟨0, p, ps, hp, hps, rfl, rfl⟩

/-- A written word is read back, and what is left is the gap behind it. -/
theorem getword_written {w : Written} (hw : w.Ok) {gs : List Gap} {f : File}
    (hgs : ∀ g ∈ gs, g.fits = true) (hend : (∃ g ∈ gs, g ≠ .joined) ∨ f = [])
    (word : WordBuf) :
    ∃ gs', (∀ g ∈ gs', g.fits = true) ∧ gs'.any Gap.breaks = gs.any Gap.breaks ∧
      (getword word (w.text ++ (gapText gs ++ f))).token = some w.token ∧
      (getword word (w.text ++ (gapText gs ++ f))).file = gapText gs' ++ f := by
  obtain ⟨n, p, ps, hp, hps, hvalue, htext⟩ := first_piece hw.written hw.visible
  have hfits : p.fits false = true := by
    simp only [wellWritten, Bool.and_eq_true] at hps
    exact hps.1
  have hgap : ∀ g ∈ w.gap ++ List.replicate n Gap.joined, g.fits = true := by
    intro g hg
    rcases List.mem_append.mp hg with hg | hg
    · exact hw.gap g hg
    · rw [List.eq_of_mem_replicate hg]
      rfl
  have hbreaks : (w.gap ++ List.replicate n Gap.joined).any Gap.breaks = w.gap.any Gap.breaks := by
    simp [List.any_append, List.any_replicate, Gap.breaks]
  have hall : w.text ++ (gapText gs ++ f) =
      gapText (w.gap ++ List.replicate n Gap.joined) ++
        (p.text ++ (wordText ps ++ (gapText gs ++ f))) := by
    rw [Written.text, htext]
    simp [gapText, wordText]
  have hrun := getword_piece hfits hp hgap word (wordText ps ++ (gapText gs ++ f))
  obtain ⟨s₁, h₁, hscan₁⟩ := scanWord_pieces (Scan.has_start word) hps (by
    simpa [hvalue] using hw.short)
  rw [hvalue, List.nil_append] at h₁
  obtain ⟨s₂, gs', h₂, hfits', hbreaks', hscan₂⟩ := scanWord_gap h₁ hw.short hgs hend
  have hword : scanWord (Scan.start word) (p.text ++ (wordText ps ++ (gapText gs ++ f))) =
      (s₂, gapText gs' ++ f) := by
    rw [← hscan₂, ← hscan₁]
    simp [wordText]
  refine ⟨gs', hfits', hbreaks', ?_, ?_⟩
  · rw [hall, hrun, hword, hbreaks, GotWord.token, if_pos rfl, h₂.string hw.short hw.nonzero]
    rfl
  · rw [hall, hrun, hword]

/-- There is no word in a gap. -/
theorem getword_gap {gs : List Gap} (hgs : ∀ g ∈ gs, g.fits = true) (word : WordBuf) :
    (getword word (gapText gs)).token = none := by
  have hgap := skipBlanks_gap hgs false []
  rw [List.append_nil] at hgap
  simp [getword, hgap, skipBlanks, GotWord.token]

/-! ## The whole file -/

theorem Written.Ok.behind {w : Written} (hw : w.Ok) {gs : List Gap}
    (hgs : ∀ g ∈ gs, g.fits = true) : { w with gap := gs }.Ok where
  gap := hgs
  written := hw.written
  visible := hw.visible
  short := hw.short
  nonzero := hw.nonzero

theorem getwords_written {w : Written} {ws : List Written} {gs : List Gap}
    (hws : ∀ x ∈ w :: ws, x.Ok) (hapart : ∀ x ∈ ws, x.Apart) (hgs : ∀ g ∈ gs, g.fits = true)
    (word : WordBuf) :
    getwords (ws.length + 2) word ((w :: ws).flatMap Written.text ++ gapText gs) =
      (w :: ws).map (fun x => some x.token) ++ [none] := by
  induction ws generalizing w word with
  | nil =>
      obtain ⟨gs', hgs', -, htoken, hfile⟩ :=
        getword_written (hws w List.mem_cons_self) hgs (.inr rfl) word
      simp only [List.append_nil] at htoken hfile
      simp [getwords, htoken, hfile, getword_gap hgs']
  | cons w₂ ws ih =>
      have hw₂ : w₂.Ok := hws w₂ (by simp)
      obtain ⟨gs', hgs', hbreaks, htoken, hfile⟩ :=
        getword_written (f := wordText w₂.pieces ++ (ws.flatMap Written.text ++ gapText gs))
          (hws w List.mem_cons_self) hw₂.gap (.inl (hapart w₂ List.mem_cons_self)) word
      -- what is left of the gap stands in front of the next word
      let next : Written := { w₂ with gap := gs' }
      have hsame : next.token = w₂.token := by
        rw [Written.token, Written.token, hbreaks]
      have hrest : getwords (ws.length + 2)
          (getword word ((w :: w₂ :: ws).flatMap Written.text ++ gapText gs)).word
          ((next :: ws).flatMap Written.text ++ gapText gs) =
            (next :: ws).map (fun x => some x.token) ++ [none] := by
        refine ih ?_ (fun x hx => hapart x (List.mem_cons_of_mem w₂ hx)) _
        intro x hx
        rcases List.mem_cons.mp hx with rfl | hx
        · exact hw₂.behind hgs'
        · exact hws x (by simp [hx])
      have hfirst : (w :: w₂ :: ws).flatMap Written.text ++ gapText gs =
          w.text ++ (gapText w₂.gap ++
            (wordText w₂.pieces ++ (ws.flatMap Written.text ++ gapText gs))) := by
        simp [Written.text]
      have hleft : gapText gs' ++
          (wordText w₂.pieces ++ (ws.flatMap Written.text ++ gapText gs)) =
            (next :: ws).flatMap Written.text ++ gapText gs := by
        simp [Written.text, next]
      rw [List.length_cons, getwords, hfirst, htoken, hfile, hleft, ← hfirst, hrest,
        List.map_cons, hsame]
      rfl

/-- An octet in quotes, with a backslash where the quotes do not help. -/
def Piece.inQuotes (c : UInt8) : Piece :=
  if c = chQuote ∨ c = chBackslash then .escaped c else .plain c

theorem Piece.inQuotes_spec (c : UInt8) :
    (inQuotes c).fits true = true ∧ (inQuotes c).turns true = true ∧
      (inQuotes c).value = [c] := by
  by_cases hc : c = chQuote ∨ c = chBackslash
  · rcases hc with rfl | rfl <;> decide
  · rw [inQuotes, if_neg hc]
    rw [not_or] at hc
    simp [hc, fits, turns, value]

/-- Every word can be written. -/
theorem written_exists (v : List UInt8) :
    ∃ ps, wellWritten false ps = true ∧ (∃ p ∈ ps, p ≠ .joined) ∧ wordValue ps = v := by
  have hin : wellWritten true (v.map Piece.inQuotes ++ [.quote]) = true := by
    induction v with
    | nil => decide
    | cons c v ih => simpa [wellWritten, Piece.inQuotes_spec c] using ih
  refine ⟨.quote :: (v.map Piece.inQuotes ++ [.quote]), ?_,
    ⟨.quote, List.mem_cons_self, by decide⟩, ?_⟩
  · simpa [wellWritten, Piece.fits, Piece.turns] using hin
  · have hquote : Piece.quote.value = [] := rfl
    simp [wordValue, hquote, List.flatMap_map, (Piece.inQuotes_spec _).2.2]

/-- Words with gaps between them and behind the last are read back in order, each with the
line breaks of the gap before it, and then there is no further one. -/
theorem getword_roundTrip (word : WordBuf) (ws : List Written) (gs : List Gap)
    (hws : ∀ w ∈ ws, w.Ok) (hapart : ∀ w ∈ ws.tail, w.Apart) (hgs : ∀ g ∈ gs, g.fits = true) :
    getwords (ws.length + 1) word (ws.flatMap Written.text ++ gapText gs) =
      ws.map (fun w => some w.token) ++ [none] := by
  cases ws with
  | nil => simp [getwords, getword_gap hgs]
  | cons w ws => exact getwords_written hws hapart hgs word

/-- The file is `"a b"\<newline>c #x<newline>\\"#"`. -/
theorem getword_roundTrip_two :
    getwords 3 ⟨fun _ => 0, []⟩
        [34, 97, 32, 98, 34, 92, 10, 99, 32, 35, 120, 10, 92, 92, 34, 35, 34] =
      [some ⟨[97, 32, 98, 99], false⟩, some ⟨[92, 35], true⟩, none] := by
  let first : Written :=
    ⟨[], [.quote, .plain 97, .plain 32, .plain 98, .quote, .joined, .plain 99]⟩
  let second : Written :=
    ⟨[.blank 32, .comment [120]], [.escaped 92, .quote, .plain 35, .quote]⟩
  have hfirst : first.Ok :=
    ⟨by decide, by decide, by decide, by decide, by decide +kernel⟩
  have hsecond : second.Ok :=
    ⟨by decide, by decide, by decide, by decide, by decide +kernel⟩
  exact getword_roundTrip ⟨fun _ => 0, []⟩ [first, second] []
    (by simp [hfirst, hsecond]) (by simp [Written.Apart, second]) (by simp)

/-! ## What was in the array does not matter -/

/-- Two runs of the second loop that are at the same place. The array may have anything in it
where nothing has been stored yet. -/
structure Scan.Same (s t : Scan) : Prop where
  len : s.len = t.len
  escape : s.escape = t.escape
  quoted : s.quoted = t.quoted
  behind : s.escape = true → 0 < s.len
  word : ∀ i < min s.len (maxwordlen - 1), s.word.octets i = t.word.octets i

theorem Scan.Same.store {s t : Scan} (h : s.Same t) (c : UInt8) (escape : Bool) :
    ({ s.store c with escape := escape } : Scan).Same { t.store c with escape := escape } := by
  refine ⟨congrArg (· + 1) h.len, rfl, h.quoted, fun _ => Nat.succ_pos _, ?_⟩
  intro i hi
  simp only [Scan.store, ← h.len] at hi ⊢
  split
  · by_cases hlast : i = s.len
    · simp [WordBuf.set, Buf.set8, hlast]
    · simp only [WordBuf.set, Buf.set8_of_ne c hlast]
      exact h.word i (by omega)
  · exact h.word i (by omega)

theorem Scan.Same.turn {s t : Scan} (h : s.Same t) (c : UInt8) :
    (s.turn c = none ∧ t.turn c = none) ∨
      ∃ s' t' : Scan, s.turn c = some s' ∧ t.turn c = some t' ∧ s'.Same t' := by
  rw [Scan.turn, Scan.turn, ← h.escape, ← h.quoted, ← h.len]
  by_cases hesc : s.escape = true
  · have hpos := h.behind hesc
    rw [if_pos hesc, if_pos hesc]
    refine .inr ?_
    by_cases hn : c = chNewline
    · rw [if_pos hn, if_pos hn]
      exact ⟨_, _, rfl, rfl, rfl, rfl, rfl, by simp,
        fun i hi => h.word i (by simp only at hi; omega)⟩
    · rw [if_neg hn, if_neg hn]
      by_cases hput : c = chQuote ∨ isspace c = true ∨ c = chBackslash
      · rw [if_pos hput, if_pos hput]
        refine ⟨_, _, rfl, rfl, rfl, rfl, rfl, by simp, fun i hi => ?_⟩
        by_cases hlast : i = s.len - 1
        · simp [WordBuf.set, Buf.set8, hlast]
        · simp only [WordBuf.set, Buf.set8_of_ne c hlast]
          exact h.word i hi
      · rw [if_neg hput, if_neg hput]
        exact ⟨_, _, rfl, rfl, h.store c false⟩
  · rw [if_neg hesc, if_neg hesc]
    by_cases hquote : c = chQuote
    · rw [if_pos hquote, if_pos hquote]
      exact .inr ⟨_, _, rfl, rfl, rfl, rfl, rfl, h.behind, h.word⟩
    · rw [if_neg hquote, if_neg hquote]
      by_cases hend : ¬ s.quoted = true ∧ (isspace c = true ∨ c = chHash)
      · rw [if_pos hend, if_pos hend]
        exact .inl ⟨rfl, rfl⟩
      · rw [if_neg hend, if_neg hend]
        exact .inr ⟨_, _, rfl, rfl, h.store c _⟩

theorem Scan.Same.scan {s t : Scan} (h : s.Same t) (f : File) :
    (scanWord s f).1.Same (scanWord t f).1 ∧ (scanWord s f).2 = (scanWord t f).2 := by
  induction f generalizing s t with
  | nil => exact ⟨h, rfl⟩
  | cons c f ih =>
      rcases h.turn c with ⟨hs, ht⟩ | ⟨s', t', hs, ht, hsame⟩
      · rw [scanWord, scanWord, hs, ht]
        exact ⟨h, rfl⟩
      · rw [scanWord, scanWord, hs, ht]
        exact ih hsame

theorem Scan.Same.string {s t : Scan} (h : s.Same t) : s.close.string = t.close.string := by
  have hclose : ∀ u : Scan, u.close = u.word.set (min u.len (maxwordlen - 1)) 0 := by
    intro u
    rw [Scan.close]
    split
    · rw [Nat.min_eq_right (by omega)]
    · rw [Nat.min_eq_left (by omega)]
  have hlt : min s.len (maxwordlen - 1) < maxwordlen :=
    Nat.lt_of_le_of_lt (Nat.min_le_right ..) (by decide)
  rw [hclose, hclose, ← h.len, WordBuf.string_set _ hlt, WordBuf.string_set _ hlt,
    Buf.take_congr h.word]

theorem getword_congr (word word' : WordBuf) (f : File) :
    (getword word f).token = (getword word' f).token ∧
      (getword word f).file = (getword word' f).file := by
  rw [getword, getword]
  generalize skipBlanks false false f = sk
  obtain ⟨newline, escape, c, file⟩ := sk
  cases c with
  | none => simp [GotWord.token]
  | some c =>
      have hstart : Scan.Same
          ⟨if escape then word.set 0 chBackslash else word, if escape then 1 else 0, escape, false⟩
          ⟨if escape then word'.set 0 chBackslash else word', if escape then 1 else 0, escape,
            false⟩ := by
        refine ⟨rfl, rfl, rfl, ?_, ?_⟩
        · intro h
          simp only at h
          simp [h]
        · intro i hi
          cases escape with
          | false => simp at hi
          | true =>
              obtain rfl : i = 0 := by simp only [if_true] at hi; omega
              rfl
      obtain ⟨hsame, hfile⟩ := hstart.scan (c :: file)
      exact ⟨by simp only [GotWord.token, hsame.string], hfile⟩

/-! ## The words of a file -/

/-- A word that is found is at least one octet of the file. -/
theorem skipBlanks_found {comment newline : Bool} {f : File} {c : UInt8}
    (h : (skipBlanks comment newline f).c = some c) :
    (skipBlanks comment newline f).file.length < f.length ∧
      ((skipBlanks comment newline f).escape = false → isspace c = false ∧ c ≠ chHash) := by
  fun_induction skipBlanks comment newline f with
  | case1 => cases h
  | case2 newline f ih | case3 newline d f hn ih | case7 newline f hb ih
  | case8 newline f hb hn ih | case9 newline d f hb hn hh hs ih =>
      obtain ⟨hlen, hc⟩ := ih h
      exact ⟨Nat.lt_succ_of_lt hlen, hc⟩
  | case4 => cases h
  | case5 newline f ih =>
      obtain ⟨hlen, hc⟩ := ih h
      exact ⟨Nat.lt_succ_of_lt (Nat.lt_succ_of_lt hlen), hc⟩
  | case6 newline d f hn => exact ⟨by simp only [List.length_cons]; omega, fun he => by cases he⟩
  | case10 newline d f hb hn hh hs =>
      obtain rfl : d = c := Option.some.inj h
      exact ⟨Nat.lt_succ_self _, fun _ => ⟨Bool.eq_false_iff.mpr hs, hh⟩⟩

theorem Scan.escape_of_turn {s : Scan} {c : UInt8} (h : s.turn c = none) :
    s.escape = false ∧ (isspace c = true ∨ c = chHash) := by
  rw [Scan.turn] at h
  split_ifs at h with hesc hn hput hquote hend
  exact ⟨Bool.eq_false_iff.mpr hesc, hend.2⟩

theorem scanWord_length (s : Scan) (f : File) : (scanWord s f).2.length ≤ f.length := by
  fun_induction scanWord s f with
  | case1 => exact Nat.le_refl _
  | case2 => exact Nat.le_refl _
  | case3 s c f s' hturn ih => exact Nat.le_succ_of_le ih

theorem getword_length {word : WordBuf} {f : File} {t : Token}
    (h : (getword word f).token = some t) : (getword word f).file.length < f.length := by
  rw [getword] at h ⊢
  cases hc : (skipBlanks false false f).c with
  | none => simp [hc, GotWord.token] at h
  | some c =>
      obtain ⟨hlen, hword⟩ := skipBlanks_found hc
      generalize skipBlanks false false f = sk at *
      obtain ⟨newline, escape, c', file⟩ := sk
      obtain rfl : c' = some c := hc
      simp only
      cases hs : Scan.turn ⟨if escape then word.set 0 chBackslash else word,
          if escape then 1 else 0, escape, false⟩ c with
      | none =>
          -- the octet in hand is not one that the word ends at
          obtain ⟨hesc, hend⟩ := Scan.escape_of_turn hs
          obtain ⟨hspace, hhash⟩ := hword hesc
          rcases hend with hend | hend
          · rw [hspace] at hend; cases hend
          · exact absurd hend hhash
      | some s' =>
          rw [scanWord, hs]
          exact Nat.lt_of_le_of_lt (scanWord_length s' file) hlen

/-- Calls until there is no further word. -/
def readTokens : Nat → WordBuf → File → List Token
  | 0, _, _ => []
  | n + 1, word, f =>
      match (getword word f).token with
      | none => []
      | some t => t :: readTokens n (getword word f).word (getword word f).file

/-- The words of a file. The caller's array is not initialised; what is in it does not
matter. -/
def tokens (f : File) : List Token := readTokens (f.length + 1) ⟨fun _ => 0, []⟩ f

theorem readTokens_congr {n : Nat} (m : Nat) {word word' : WordBuf} {f : File}
    (hn : f.length < n) (hm : f.length < m) : readTokens n word f = readTokens m word' f := by
  induction n generalizing m word word' f with
  | zero => omega
  | succ n ih =>
      obtain ⟨m, rfl⟩ : ∃ k, m = k + 1 := ⟨m - 1, by omega⟩
      obtain ⟨htoken, hfile⟩ := getword_congr word word' f
      rw [readTokens, readTokens, ← htoken, ← hfile]
      cases ht : (getword word f).token with
      | none => rfl
      | some t =>
          have hlen := getword_length ht
          exact congrArg (t :: ·) (ih m (by omega) (by omega))

/-- Each call takes the first of them, whatever is in the array. -/
theorem tokens_eq (word : WordBuf) (f : File) :
    tokens f = match (getword word f).token with
      | none => []
      | some t => t :: tokens (getword word f).file := by
  have hsame : tokens f = readTokens (f.length + 1) word f :=
    readTokens_congr _ (Nat.lt_succ_self _) (Nat.lt_succ_self _)
  rw [hsame, readTokens]
  cases ht : (getword word f).token with
  | none => rfl
  | some t => exact congrArg (t :: ·) (readTokens_congr _ (getword_length ht) (Nat.lt_succ_self _))

end VxWorks.Ppp
