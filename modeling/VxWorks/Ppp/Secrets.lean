import VxWorks.Ppp.Getword
import Mathlib.Data.List.MinMax

/-!
# Looking up a secret (`scan_authfile` of `auth.c`, `pppSecretFind` of `pppSecretLib.c`)

Two scans look for the entry that fits a client and a server best. One reads a
file with `getword`, a line for an entry; the other walks the list that
`pppSecretAdd` pushes entries to the front of. What both should find is said
once, as the first entry of those that suit both names whose flags are the
greatest. The flags are numbers, and the one for the client is the greater of
the two.

`scan_authfile` is one loop with several calls of `getword` in its body, and a
word that begins a line restarts the body wherever it turns up. The model is a
fold over the words of the file whose state says what the next word of the same
line is for. Line by line it is a function on lines, and that function either
takes the line's entry or keeps what there is.

`pppSecretFind` does not reset its flags between entries: an entry with a
wildcard for the client keeps what the last one set. That can only do harm
behind an entry for just this client on any server.
-/

namespace VxWorks.Ppp

open VxWorks.Lib

/-- A string without its closing null. -/
abbrev Str : Type := List UInt8

def nonwildServer : Nat := 1
def nonwildClient : Nat := 2

/-- `ISWILD`. -/
def isWild (word : Str) : Bool := word = [42]

/-- The name is known, it is not this word and the word is no wildcard. -/
def mismatch (name : Option Str) (word : Str) : Bool :=
  match name with
  | none => false
  | some n => n ≠ [] && word ≠ n && !isWild word

/-- Special syntax: `@filename` means read secret from file. -/
def readSecret (files : Str → Option File) (word : Str) : Option Str :=
  match word with
  | [] => some []
  | c :: atfile =>
      if c = 64 then
        match files atfile with
        | none => none
        | some sf => ((tokens sf).head?).map Token.word
      else some word

/-- What a lookup gives: the flags or -1, the secret if one was stored, and the authorized
addresses. -/
structure Found where
  flag : Int
  secret : Option Str
  addrs : List Str
deriving DecidableEq, Repr

def Found.nothing : Found := ⟨-1, none, []⟩

/-! ## The file -/

/-- What the next word of the line is for. `skip` is the loop that looks for a word at the
start of a line. -/
inductive AuthPc where
  | skip
  | server (gotFlag : Nat)
  | secret (gotFlag : Nat)
  | addrs
deriving DecidableEq, Repr

structure AuthScan where
  pc : AuthPc
  found : Found
deriving DecidableEq, Repr

/-- Got a client. -/
def AuthScan.line (client : Option Str) (s : AuthScan) (word : Str) : AuthScan :=
  if mismatch client word then { s with pc := .skip }
  else { s with pc := .server (if isWild word then 0 else nonwildClient) }

def AuthScan.step (files : Str → Option File) (client server : Option Str) (s : AuthScan)
    (t : Token) : AuthScan :=
  if t.newline then s.line client t.word
  else match s.pc with
  | .skip => s
  | .server gotFlag =>
      if mismatch server t.word then { s with pc := .skip }
      else
        let gotFlag := if isWild t.word then gotFlag else gotFlag ||| nonwildServer
        if (gotFlag : Int) ≤ s.found.flag then { s with pc := .skip }
        else { s with pc := .secret gotFlag }
  | .secret gotFlag =>
      match readSecret files t.word with
      | none => { s with pc := .skip }
      | some secret => { pc := .addrs, found := ⟨gotFlag, some secret, []⟩ }
  | .addrs => { s with found := { s.found with addrs := s.found.addrs ++ [t.word] } }

/-- The first word of the file begins a line whatever stands before it. -/
def scanAuthfile (files : Str → Option File) (client server : Option Str) (f : File) : Found :=
  match tokens f with
  | [] => Found.nothing
  | t :: ts =>
      let first := AuthScan.line client ⟨.skip, Found.nothing⟩ t.word
      (ts.foldl (AuthScan.step files client server) first).found

/-! ## The table -/

/-- `PPP_SECRET`. -/
structure PppSecret where
  client : Str
  server : Str
  secret : Str
  addrs : Str
deriving DecidableEq, Repr

/-- The entry is filled from zero and put in front. -/
def pppSecretAdd (client server secret addrs : Option Str) (table : List PppSecret) :
    List PppSecret :=
  ⟨client.getD [], server.getD [], secret.getD [], addrs.getD []⟩ :: table

structure SecretScan where
  pSecret : Option PppSecret
  gotFlag : Nat
  bestFlag : Int
deriving DecidableEq, Repr

def SecretScan.step (client server : Option Str) (s : SecretScan) (entry : PppSecret) :
    SecretScan :=
  if mismatch client entry.client || mismatch server entry.server then s
  else
    let gotFlag := if isWild entry.client then s.gotFlag else nonwildClient
    let gotFlag := if isWild entry.server then gotFlag else gotFlag ||| nonwildServer
    if s.bestFlag < gotFlag then ⟨some entry, gotFlag, gotFlag⟩
    else { s with gotFlag := gotFlag }

/-- `strtok_r` with `" \t"`. -/
def strtok (s : Str) : List Str :=
  (s.splitOnP fun c => c = 32 || c = 9).filter (· ≠ [])

/-- `stored` says that the caller wants the secret; otherwise no file is opened for it. -/
def pppSecretFind (files : Str → Option File) (stored : Bool) (client server : Option Str)
    (table : List PppSecret) : Found :=
  let s := table.foldl (SecretScan.step client server) ⟨none, 0, -1⟩
  match s.pSecret with
  | none => Found.nothing
  | some entry =>
      if stored then
        match readSecret files entry.secret with
        | none => Found.nothing
        | some secret => ⟨s.bestFlag, some secret, strtok entry.addrs⟩
      else ⟨s.bestFlag, none, strtok entry.addrs⟩

/-! ## What should be found -/

/-- An entry of either kind, as it is written. -/
structure Entry where
  client : Str
  server : Str
  secret : Str
  addrs : List Str
deriving DecidableEq, Repr

def clientFlag (word : Str) : Nat := if isWild word then 0 else nonwildClient
def serverFlag (word : Str) : Nat := if isWild word then 0 else nonwildServer

/-- The flags of an entry say which of its names are no wildcards. -/
def Entry.flag (e : Entry) : Nat := clientFlag e.client ||| serverFlag e.server

/-- How many of its names are no wildcards. -/
def Entry.exact (e : Entry) : Nat :=
  (if isWild e.client then 0 else 1) + (if isWild e.server then 0 else 1)

def Entry.suits (client server : Option Str) (e : Entry) : Bool :=
  !mismatch client e.client && !mismatch server e.server

/-- The first of the greatest among those that suit. -/
def bestEntry (rank : Entry → Nat) (client server : Option Str) (es : List Entry) :
    Option Entry :=
  (es.filter (Entry.suits client server)).argmax rank

def Entry.found (e : Entry) (secret : Option Str) : Found := ⟨e.flag, secret, e.addrs⟩

/-- The lines of a file, each a list of its words. -/
def linesFrom (line : List Str) : List Token → List (List Str)
  | [] => [line]
  | t :: ts =>
      if t.newline then line :: linesFrom [t.word] ts else linesFrom (line ++ [t.word]) ts

def fileLines (f : File) : List (List Str) :=
  match tokens f with
  | [] => []
  | t :: ts => linesFrom [t.word] ts

/-- A line is an entry if it has three words and its secret can be read. -/
def lineEntry (files : Str → Option File) : List Str → Option Entry
  | client :: server :: word :: addrs =>
      (readSecret files word).map fun secret => ⟨client, server, secret, addrs⟩
  | _ => none

def fileEntries (files : Str → Option File) (f : File) : List Entry :=
  (fileLines f).filterMap (lineEntry files)

def PppSecret.entry (e : PppSecret) : Entry := ⟨e.client, e.server, e.secret, strtok e.addrs⟩

/-- An entry with a wildcard for the client, behind one for just this client on any server
and with none before it that is exact in both names, finds that client's flag still set. -/
def NoStale (client server : Option Str) (es : List Entry) : Prop :=
  ∀ pre e post, es = pre ++ e :: post → e.suits client server = true → e.flag = nonwildServer →
    (∃ d ∈ pre, d.suits client server = true ∧ d.flag = nonwildClient) →
    ∃ d ∈ pre, d.suits client server = true ∧ d.flag = (nonwildClient ||| nonwildServer)

/-! ## A running best -/

section

variable {client server : Option Str}

/-- The entry is taken if it suits and is better than what there is. -/
def better (client server : Option Str) (b : Found) (e : Entry) : Found :=
  if e.suits client server ∧ b.flag < e.flag then e.found (some e.secret) else b

def orNothing (found : Entry → Found) : Option Entry → Found
  | none => Found.nothing
  | some e => found e

theorem bestEntry_concat_of_not (rank : Entry → Nat) {e : Entry} (es : List Entry)
    (he : e.suits client server = false) :
    bestEntry rank client server (es ++ [e]) = bestEntry rank client server es := by
  simp [bestEntry, List.filter_append, he]

theorem bestEntry_concat (rank : Entry → Nat) {e : Entry} (es : List Entry)
    (he : e.suits client server = true) :
    bestEntry rank client server (es ++ [e]) =
      match bestEntry rank client server es with
      | none => some e
      | some b => if rank b < rank e then some e else some b := by
  rw [bestEntry, List.filter_append, List.filter_cons_of_pos he, List.filter_nil,
    List.argmax_concat, ← bestEntry]
  cases bestEntry rank client server es <;> rfl

theorem foldl_better (es : List Entry) :
    es.foldl (better client server) Found.nothing =
      orNothing (fun e => e.found (some e.secret)) (bestEntry Entry.flag client server es) := by
  induction es using List.reverseRecOn with
  | nil => rfl
  | append_singleton es e ih =>
      rw [List.foldl_append, List.foldl_cons, List.foldl_nil, ih, better]
      cases he : e.suits client server with
      | false => rw [bestEntry_concat_of_not _ _ he, if_neg (by simp)]
      | true =>
          rw [bestEntry_concat _ _ he]
          cases bestEntry Entry.flag client server es with
          | none =>
              rw [orNothing, if_pos ⟨rfl, by simp only [Found.nothing]; omega⟩]
              rfl
          | some b =>
              dsimp only
              by_cases hlt : b.flag < e.flag
              · rw [if_pos hlt, orNothing, if_pos ⟨rfl, Int.ofNat_lt.mpr hlt⟩]
                rfl
              · rw [if_neg hlt, orNothing, if_neg fun h => hlt (Int.ofNat_lt.mp h.2)]

/-! ## The file is read line by line -/

variable {files : Str → Option File}

/-- The words of a line, the first of them at its start. -/
def lineStep (files : Str → Option File) (client server : Option Str) (s : AuthScan) :
    List Str → AuthScan
  | [] => s
  | word :: words =>
      (words.map fun w => Token.mk w false).foldl (AuthScan.step files client server)
        (s.line client word)

theorem foldl_lines (s : AuthScan) (word : Str) (line : List Str) (ts : List Token) :
    ts.foldl (AuthScan.step files client server)
        (lineStep files client server s (word :: line)) =
      (linesFrom (word :: line) ts).foldl (lineStep files client server) s := by
  induction ts generalizing s word line with
  | nil => rfl
  | cons t ts ih =>
      obtain ⟨w, newline⟩ := t
      cases newline with
      | true => exact ih (lineStep files client server s (word :: line)) w []
      | false =>
          have happend : AuthScan.step files client server
              (lineStep files client server s (word :: line)) ⟨w, false⟩ =
                lineStep files client server s (word :: (line ++ [w])) := by
            simp [lineStep, List.foldl_append]
          rw [List.foldl_cons, happend]
          exact ih s word (line ++ [w])

theorem foldl_skip (b : Found) (ws : List Str) :
    (ws.map fun w => Token.mk w false).foldl (AuthScan.step files client server) ⟨.skip, b⟩ =
      ⟨.skip, b⟩ := by
  induction ws with
  | nil => rfl
  | cons w ws ih => exact ih

theorem foldl_addrs (b : Found) (ws : List Str) :
    (ws.map fun w => Token.mk w false).foldl (AuthScan.step files client server) ⟨.addrs, b⟩ =
      ⟨.addrs, { b with addrs := b.addrs ++ ws }⟩ := by
  induction ws generalizing b with
  | nil => simp
  | cons w ws ih =>
      rw [List.map_cons, List.foldl_cons]
      refine (ih { b with addrs := b.addrs ++ [w] }).trans ?_
      simp

theorem line_skip {s : AuthScan} {word : Str} (h : mismatch client word = true) :
    s.line client word = ⟨.skip, s.found⟩ := by
  rw [AuthScan.line, if_pos h]

theorem line_server {s : AuthScan} {word : Str} (h : mismatch client word = false) :
    s.line client word = ⟨.server (clientFlag word), s.found⟩ := by
  rw [AuthScan.line, if_neg (by simp [h])]
  rfl

/-- The server's name decides whether the secret is read at all. -/
theorem step_server (b : Found) (gotFlag : Nat) (word : Str) :
    AuthScan.step files client server ⟨.server gotFlag, b⟩ ⟨word, false⟩ =
      if mismatch server word = false ∧ b.flag < (gotFlag ||| serverFlag word : Nat) then
        ⟨.secret (gotFlag ||| serverFlag word), b⟩
      else ⟨.skip, b⟩ := by
  have hflag : (if isWild word then gotFlag else gotFlag ||| nonwildServer) =
      gotFlag ||| serverFlag word := by
    rw [serverFlag]
    cases isWild word <;> simp
  simp only [AuthScan.step, Bool.false_eq_true, if_false, hflag]
  cases hm : mismatch server word with
  | true => simp
  | false => simp only [Bool.false_eq_true, if_false, true_and, ← Int.not_le, ite_not]

/-- A line's entry is taken or left; a line that is no entry changes nothing. -/
theorem lineStep_found (s : AuthScan) (line : List Str) :
    (lineStep files client server s line).found =
      match lineEntry files line with
      | none => s.found
      | some e => better client server s.found e := by
  match line with
  | [] => rfl
  | [c] =>
      cases hc : mismatch client c with
      | true => simp only [lineStep, line_skip hc, lineEntry, List.map_nil, List.foldl_nil]
      | false => simp only [lineStep, line_server hc, lineEntry, List.map_nil, List.foldl_nil]
  | [c, sv] =>
      cases hc : mismatch client c with
      | true => simp only [lineStep, line_skip hc, lineEntry, foldl_skip]
      | false =>
          simp only [lineStep, line_server hc, lineEntry, List.map_cons, List.map_nil,
            List.foldl_cons, List.foldl_nil, step_server]
          split <;> rfl
  | c :: sv :: word :: addrs =>
      have hleft : (mismatch client c = true ∨ ¬ (mismatch server sv = false ∧
          s.found.flag < (clientFlag c ||| serverFlag sv : Nat))) →
          (match lineEntry files (c :: sv :: word :: addrs) with
            | none => s.found
            | some e => better client server s.found e) = s.found := by
        intro hnot
        rw [lineEntry]
        cases readSecret files word with
        | none => rfl
        | some secret =>
            refine if_neg ?_
            simp only [Entry.suits, Entry.flag, Bool.and_eq_true, Bool.not_eq_true']
            rintro ⟨⟨hc, hs⟩, hlt⟩
            rcases hnot with hnot | hnot
            · rw [hc] at hnot; cases hnot
            · exact hnot ⟨hs, hlt⟩
      cases hc : mismatch client c with
      | true => rw [lineStep, line_skip hc, foldl_skip, hleft (.inl hc)]
      | false =>
          rw [lineStep, line_server hc, List.map_cons, List.foldl_cons, step_server]
          by_cases hs : mismatch server sv = false ∧
              s.found.flag < (clientFlag c ||| serverFlag sv : Nat)
          · have hsuits : ∀ secret,
                (Entry.mk c sv secret addrs).suits client server = true ∧
                  s.found.flag < (Entry.mk c sv secret addrs).flag := by
              intro secret
              simp [Entry.suits, Entry.flag, hc, hs]
            rw [if_pos hs, List.map_cons, List.foldl_cons]
            simp only [AuthScan.step, Bool.false_eq_true, if_false, lineEntry]
            cases readSecret files word with
            | none =>
                dsimp only [Option.map_none]
                rw [foldl_skip]
            | some secret =>
                dsimp only [Option.map_some]
                rw [better, if_pos (hsuits secret)]
                exact congrArg AuthScan.found (foldl_addrs ⟨_, some secret, []⟩ addrs)
          · rw [if_neg hs, foldl_skip, hleft (.inr hs)]

theorem foldl_lineStep (s : AuthScan) (lines : List (List Str)) :
    (lines.foldl (lineStep files client server) s).found =
      (lines.filterMap (lineEntry files)).foldl (better client server) s.found := by
  induction lines generalizing s with
  | nil => rfl
  | cons line lines ih =>
      rw [List.foldl_cons, ih, lineStep_found, List.filterMap_cons]
      cases lineEntry files line <;> rfl

theorem scanAuthfile_eq (files : Str → Option File) (client server : Option Str) (f : File) :
    scanAuthfile files client server f =
      orNothing (fun e => e.found (some e.secret))
        (bestEntry Entry.flag client server (fileEntries files f)) := by
  rw [scanAuthfile, fileEntries, fileLines]
  cases tokens f with
  | nil => rfl
  | cons t ts =>
      have hlines := @foldl_lines client server files ⟨.skip, Found.nothing⟩ t.word [] ts
      rw [← foldl_better]
      exact (congrArg AuthScan.found hlines).trans (foldl_lineStep _ _)

/-! ## The table, entry by entry -/

/-- The scan has the best entry so far, and its flags are no better than that entry's. -/
structure SecretScan.Best (client server : Option Str) (es : List PppSecret) (s : SecretScan) :
    Prop where
  entry : s.pSecret.map PppSecret.entry =
    bestEntry Entry.flag client server (es.map PppSecret.entry)
  best : s.bestFlag = match s.pSecret with
    | none => -1
    | some e => (e.entry.flag : Int)
  got : (s.gotFlag : Int) ≤ max 0 s.bestFlag

theorem Entry.flag_cases (e : Entry) :
    (isWild e.client = false ∧ e.flag = nonwildClient ||| serverFlag e.server) ∨
      (isWild e.client = true ∧ isWild e.server = true ∧ e.flag = 0) ∨
      (isWild e.client = true ∧ isWild e.server = false ∧ e.flag = nonwildServer) := by
  rw [flag, clientFlag, serverFlag]
  cases isWild e.client <;> cases isWild e.server <;> simp

theorem Entry.flag_lt (e : Entry) : e.flag < 4 := by
  rw [flag, clientFlag, serverFlag]
  cases isWild e.client <;> cases isWild e.server <;> decide

theorem NoStale.of_append {es fs : List Entry} (h : NoStale client server (es ++ fs)) :
    NoStale client server es := by
  intro pre e post heq
  exact h pre e (post ++ fs) (by rw [heq, List.append_assoc, List.cons_append])

/-- With no stale flag, what the best entry so far is worth decides about an entry with a
wildcard for the client. -/
theorem NoStale.best_ne {es : List Entry} {e b : Entry} (h : NoStale client server (es ++ [e]))
    (he : e.suits client server = true) (hflag : e.flag = nonwildServer)
    (hb : bestEntry Entry.flag client server es = some b) : b.flag ≠ nonwildClient := by
  intro hclient
  obtain ⟨hmem, hsuits⟩ := List.mem_filter.mp (List.argmax_mem hb)
  obtain ⟨d, hd, hds, hexact⟩ := h es e [] rfl he hflag ⟨b, hmem, hsuits, hclient⟩
  have hle := List.le_of_mem_argmax (List.mem_filter.mpr ⟨hd, hds⟩) hb
  rw [hexact, hclient] at hle
  exact absurd hle (by decide)

/-- What the scan compares, `g` being the flags it had. -/
theorem stale_harmless :
    ∀ b < 4, b ≠ nonwildClient → ∀ g ≤ b,
      g ||| nonwildServer ≤ b ∨ b < nonwildServer ∧ g ||| nonwildServer = nonwildServer := by
  decide

/-- The flags the scan has after an entry that suits. -/
def SecretScan.gotNext (s : SecretScan) (e : PppSecret) : Nat :=
  let gotFlag := if isWild e.client then s.gotFlag else nonwildClient
  if isWild e.server then gotFlag else gotFlag ||| nonwildServer

theorem step_suits {s : SecretScan} {e : PppSecret}
    (h : e.entry.suits client server = true) :
    SecretScan.step client server s e =
      if s.bestFlag < s.gotNext e then ⟨some e, s.gotNext e, s.gotNext e⟩
      else { s with gotFlag := s.gotNext e } := by
  have hsuits : mismatch client e.client = false ∧ mismatch server e.server = false := by
    simpa [Entry.suits, PppSecret.entry] using h
  rw [SecretScan.step, hsuits.1, hsuits.2]
  rfl

/-- What an entry that suits is compared with decides as its own flags would. -/
theorem SecretScan.Best.decides {es : List PppSecret} {e : PppSecret} {s : SecretScan}
    (h : s.Best client server es) (hsuits : e.entry.suits client server = true)
    (hstale : NoStale client server (es.map PppSecret.entry ++ [e.entry])) :
    (s.bestFlag < s.gotNext e ∧ s.gotNext e = e.entry.flag) ∨
      ((s.gotNext e : Int) ≤ s.bestFlag ∧ (e.entry.flag : Int) ≤ s.bestFlag) := by
  have hgot := h.got
  have hbest := h.best
  rcases e.entry.flag_cases with ⟨hc, hflag⟩ | ⟨hc, hs, hflag⟩ | ⟨hc, hs, hflag⟩
  · -- the client's flag is assigned, nothing is left of the flags before
    have hnext : s.gotNext e = e.entry.flag := by
      simp only [PppSecret.entry] at hc
      rw [hflag]
      cases hs : isWild e.server <;> simp [gotNext, serverFlag, PppSecret.entry, hc, hs]
    rw [hnext]
    omega
  · have hnext : s.gotNext e = s.gotFlag := by
      simp only [PppSecret.entry] at hc hs
      rw [gotNext, hc, hs]
      rfl
    rw [hnext, hflag]
    cases hp : s.pSecret <;> rw [hp] at hbest <;> simp only at hbest <;> omega
  · have hnext : s.gotNext e = s.gotFlag ||| nonwildServer := by
      simp only [PppSecret.entry] at hc hs
      rw [gotNext, hc, hs]
      rfl
    rw [hnext, hflag]
    cases hp : s.pSecret with
    | none =>
        rw [hp] at hbest
        simp only at hbest
        obtain hzero : s.gotFlag = 0 := by omega
        rw [hzero, hbest]
        exact .inl ⟨by decide, rfl⟩
    | some b =>
        rw [hp] at hbest
        simp only at hbest
        have hne := hstale.best_ne hsuits hflag (b := b.entry) (by rw [← h.entry, hp]; rfl)
        have hle : s.gotFlag ≤ b.entry.flag := by omega
        rcases stale_harmless _ b.entry.flag_lt hne _ hle with hkeep | ⟨htake, hsame⟩
        · have hone : nonwildServer ≤ s.gotFlag ||| nonwildServer := Nat.right_le_or
          exact .inr ⟨by omega, by omega⟩
        · rw [hsame]
          exact .inl ⟨by omega, rfl⟩

theorem SecretScan.Best.step {es : List PppSecret} {e : PppSecret} {s : SecretScan}
    (h : s.Best client server es)
    (hstale : NoStale client server ((es ++ [e]).map PppSecret.entry)) :
    (SecretScan.step client server s e).Best client server (es ++ [e]) := by
  rw [List.map_append, List.map_singleton] at hstale
  have hmap : (es ++ [e]).map PppSecret.entry = es.map PppSecret.entry ++ [e.entry] := by simp
  cases hsuits : e.entry.suits client server with
  | false =>
      have hstep : SecretScan.step client server s e = s := by
        simp only [Entry.suits, PppSecret.entry, ← Bool.not_or, Bool.not_eq_false'] at hsuits
        exact if_pos hsuits
      rw [hstep]
      refine ⟨?_, h.best, h.got⟩
      rw [hmap, bestEntry_concat_of_not _ _ hsuits, h.entry]
  | true =>
      have hbest := h.best
      rw [step_suits hsuits]
      rcases h.decides hsuits hstale with ⟨hlt, hnext⟩ | ⟨hle, hflag⟩
      · rw [if_pos hlt]
        refine ⟨?_, by rw [hnext], by simp only; omega⟩
        rw [hmap, bestEntry_concat _ _ hsuits, ← h.entry]
        cases hp : s.pSecret with
        | none => rfl
        | some b =>
            rw [hp] at hbest
            simp only at hbest
            rw [Option.map_some]
            exact (if_pos (by omega)).symm
      · rw [if_neg (by omega)]
        refine ⟨?_, h.best, by simp only; omega⟩
        rw [hmap, bestEntry_concat _ _ hsuits, ← h.entry]
        cases hp : s.pSecret with
        | none =>
            rw [hp] at hbest
            simp only at hbest
            omega
        | some b =>
            rw [hp] at hbest
            simp only at hbest
            rw [Option.map_some]
            exact (if_neg (by omega)).symm

theorem best_table {table : List PppSecret}
    (hstale : NoStale client server (table.map PppSecret.entry)) :
    (table.foldl (SecretScan.step client server) ⟨none, 0, -1⟩).Best client server table := by
  induction table using List.reverseRecOn with
  | nil => exact ⟨rfl, rfl, Int.le_refl 0⟩
  | append_singleton es e ih =>
      rw [List.foldl_append]
      refine (ih ?_).step hstale
      rw [List.map_append] at hstale
      exact hstale.of_append

/-- What a caller is given of the table's best entry. -/
def fetch (files : Str → Option File) (stored : Bool) (e : Entry) : Found :=
  if stored then
    match readSecret files e.secret with
    | none => Found.nothing
    | some secret => e.found (some secret)
  else e.found none

theorem pppSecretFind_eq (files : Str → Option File) (stored : Bool) {table : List PppSecret}
    (hstale : NoStale client server (table.map PppSecret.entry)) :
    pppSecretFind files stored client server table =
      orNothing (fetch files stored)
        (bestEntry Entry.flag client server (table.map PppSecret.entry)) := by
  have h := best_table hstale
  have hbest := h.best
  rw [pppSecretFind, ← h.entry]
  cases hp : (table.foldl (SecretScan.step client server) ⟨none, 0, -1⟩).pSecret with
  | none => rfl
  | some e =>
      rw [hp] at hbest
      simp only at hbest
      rw [hbest]
      rfl

/-! ## A file and a table with the same entries -/

/-- The lines of the file are the entries of the table, in the order of its list. -/
def SameEntries (f : File) (table : List PppSecret) : Prop :=
  fileLines f = table.map fun e => e.client :: e.server :: e.secret :: strtok e.addrs

/-- The entry with the secret that it names. -/
def Entry.read (files : Str → Option File) (e : Entry) : Entry :=
  { e with secret := (readSecret files e.secret).getD [] }

theorem bestEntry_read (es : List Entry) :
    bestEntry Entry.flag client server (es.map (Entry.read files)) =
      (bestEntry Entry.flag client server es).map (Entry.read files) := by
  induction es using List.reverseRecOn with
  | nil => rfl
  | append_singleton es e ih =>
      rw [List.map_append, List.map_singleton]
      have hread : (e.read files).suits client server = e.suits client server := rfl
      cases he : e.suits client server with
      | false =>
          rw [bestEntry_concat_of_not _ _ (hread.trans he), bestEntry_concat_of_not _ _ he, ih]
      | true =>
          rw [bestEntry_concat _ _ (hread.trans he), bestEntry_concat _ _ he, ih]
          cases bestEntry Entry.flag client server es with
          | none => rfl
          | some b =>
              rw [Option.map_some]
              dsimp only
              by_cases hlt : b.flag < e.flag
              · rw [if_pos hlt]
                exact if_pos hlt
              · rw [if_neg hlt]
                exact if_neg hlt

theorem fileEntries_same {f : File} {table : List PppSecret} (hsame : SameEntries f table)
    (hread : ∀ e ∈ table, readSecret files e.secret ≠ none) :
    fileEntries files f = (table.map PppSecret.entry).map (Entry.read files) := by
  rw [fileEntries, hsame]
  clear hsame
  induction table with
  | nil => rfl
  | cons e table ih =>
      obtain ⟨secret, hsecret⟩ := Option.ne_none_iff_exists'.mp (hread e List.mem_cons_self)
      have hentry : lineEntry files (e.client :: e.server :: e.secret :: strtok e.addrs) =
          some (e.entry.read files) := by
        simp [lineEntry, Entry.read, PppSecret.entry, hsecret]
      rw [List.map_cons, List.filterMap_cons, hentry]
      exact congrArg (_ :: ·) (ih fun x hx => hread x (List.mem_cons_of_mem e hx))

theorem pppSecretFind_same {f : File} {table : List PppSecret}
    (hstale : NoStale client server (table.map PppSecret.entry)) (hsame : SameEntries f table)
    (hread : ∀ e ∈ table, readSecret files e.secret ≠ none) :
    pppSecretFind files true client server table = scanAuthfile files client server f := by
  rw [pppSecretFind_eq files true hstale, scanAuthfile_eq, fileEntries_same hsame hread,
    bestEntry_read]
  cases hb : bestEntry Entry.flag client server (table.map PppSecret.entry) with
  | none => rfl
  | some b =>
      obtain ⟨hmem, -⟩ := List.mem_filter.mp (List.argmax_mem hb)
      obtain ⟨e, he, rfl⟩ := List.mem_map.mp hmem
      obtain ⟨secret, hsecret⟩ := Option.ne_none_iff_exists'.mp (hread e he)
      have hentry : readSecret files e.entry.secret = some secret := hsecret
      simp [orNothing, fetch, Entry.read, hentry, Entry.found, Entry.flag]

/-- Nothing is found if and only if nothing suits. -/
theorem flag_eq_iff (found : Entry → Found) (hfound : ∀ e, (found e).flag ≠ -1)
    (rank : Entry → Nat) (es : List Entry) :
    (orNothing found (bestEntry rank client server es)).flag = -1 ↔
      ∀ e ∈ es, e.suits client server = false := by
  cases hb : bestEntry rank client server es with
  | none =>
      rw [bestEntry, List.argmax_eq_none, List.filter_eq_nil_iff] at hb
      simpa [orNothing, Found.nothing] using hb
  | some e =>
      obtain ⟨hmem, hsuits⟩ := List.mem_filter.mp (List.argmax_mem hb)
      refine iff_of_false (hfound e) ?_
      intro h
      rw [h e hmem] at hsuits
      cases hsuits

end

/-- Every table is built by adding its entries, the last one first. -/
theorem table_added (table : List PppSecret) :
    table.reverse.foldl (fun t e =>
      pppSecretAdd (some e.client) (some e.server) (some e.secret) (some e.addrs) t) [] =
        table := by
  induction table with
  | nil => rfl
  | cons e table ih =>
      rw [List.reverse_cons, List.foldl_append, ih]
      rfl

/-- Both lookups find the first of the entries with the greatest flags among those that
suit, with its own flags, secret and addresses, and nothing if and only if none suits; for
the table this is so unless the flag of another entry is still set. On the same entries they
find the same. -/
theorem secret_lookup (files : Str → Option File) (client server : Option Str) (f : File)
    (table : List PppSecret) (stored : Bool) :
    (scanAuthfile files client server f =
        orNothing (fun e => e.found (some e.secret))
          (bestEntry Entry.flag client server (fileEntries files f)) ∧
      ((scanAuthfile files client server f).flag = -1 ↔
        ∀ e ∈ fileEntries files f, e.suits client server = false)) ∧
    (NoStale client server (table.map PppSecret.entry) →
      (pppSecretFind files stored client server table =
          orNothing (fetch files stored)
            (bestEntry Entry.flag client server (table.map PppSecret.entry)) ∧
        ((pppSecretFind files false client server table).flag = -1 ↔
          ∀ e ∈ table, e.entry.suits client server = false)) ∧
      (SameEntries f table → (∀ e ∈ table, readSecret files e.secret ≠ none) →
        pppSecretFind files true client server table = scanAuthfile files client server f)) := by
  have hflag : ∀ (e : Entry) (secret : Option Str), (e.found secret).flag ≠ -1 := by
    intro e secret
    simp only [Entry.found]
    omega
  refine ⟨⟨scanAuthfile_eq files client server f, ?_⟩, fun hstale =>
    ⟨⟨pppSecretFind_eq files stored hstale, ?_⟩, pppSecretFind_same hstale⟩⟩
  · rw [scanAuthfile_eq]
    exact flag_eq_iff _ (fun e => hflag e _) _ _
  · rw [pppSecretFind_eq files false hstale,
      flag_eq_iff (fetch files false) (fun e => hflag e none)]
    exact List.forall_mem_map

/-- The file is `joe s pw 10.0.0.1` and `* s x`, each on a line; the table has the same. -/
theorem secret_lookup_two :
    let f : File := [106, 111, 101, 32, 115, 32, 112, 119, 32, 49, 48, 46, 48, 46, 48, 46, 49, 10,
      42, 32, 115, 32, 120, 10]
    let table : List PppSecret :=
      [⟨[106, 111, 101], [115], [112, 119], [49, 48, 46, 48, 46, 48, 46, 49]⟩,
        ⟨[42], [115], [120], []⟩]
    scanAuthfile (fun _ => none) (some [106, 111, 101]) (some [115]) f =
        ⟨3, some [112, 119], [[49, 48, 46, 48, 46, 48, 46, 49]]⟩ ∧
      pppSecretFind (fun _ => none) true (some [106, 111, 101]) (some [115]) table =
        scanAuthfile (fun _ => none) (some [106, 111, 101]) (some [115]) f := by
  intro f table
  have hlook := secret_lookup (fun _ => none) (some [106, 111, 101]) (some [115]) f table true
  have hstale : NoStale (some [106, 111, 101]) (some [115]) (table.map PppSecret.entry) := by
    rintro pre e post heq - - ⟨d, hd, -, hflag⟩
    have hmem : d ∈ table.map PppSecret.entry := by
      rw [heq]
      exact List.mem_append_left _ hd
    have hne : ∀ x ∈ table.map PppSecret.entry, x.flag ≠ nonwildClient := by decide
    exact absurd hflag (hne d hmem)
  refine ⟨?_, (hlook.2 hstale).2 ?_ ?_⟩
  · rw [hlook.1.1]
    decide +kernel
  · show fileLines f = _
    decide +kernel
  · decide

/-- An entry for just this client on any server is preferred to one for any client on just
this server, although it comes after it and is exact in as many names: the lines are
`* s x` and `c * y`. -/
theorem client_before_server :
    ¬ ∀ (files : Str → Option File) (client server : Option Str) (f : File),
      scanAuthfile files client server f =
        orNothing (fun e => e.found (some e.secret))
          (bestEntry Entry.exact client server (fileEntries files f)) := by
  intro h
  have hfile := h (fun _ => none) (some [99]) (some [115])
    [42, 32, 115, 32, 120, 10, 99, 32, 42, 32, 121, 10]
  exact absurd hfile (by decide +kernel)

end VxWorks.Ppp
