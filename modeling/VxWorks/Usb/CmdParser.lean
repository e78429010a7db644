import Mathlib.Data.List.Basic
import Mathlib.Data.List.TakeWhile
import Mathlib.Data.List.Infix
import VxWorks.Lib.Scan
import VxWorks.Lib.Traced

/-!
# Command lines (cmdParser.c)

A command line is commands with separators between them. `ExecCmd` reads the first
token of the rest of the line, looks for it in a table of keywords, calls the function
it finds there, which may read on, and goes to the next command. The tokens it meets are
the first tokens of what lies between the separators, and so the line is the list
`lineTokens`, and what the parser does is a recursion over it, `runTokens`. The same
recursion with the choice a reader of the header expects says what it ought to do.

Three things come between the two. `GetNextToken` stores as many characters as the
buffer is long, and the zero behind them: a token of 32 characters ends behind
`keyword`, and then nothing is known of the call any more. An entry whose `minMatch` is
negative matches every token. And `TruncSpace` keeps the length of the line in 16 bits,
so that it may cut a longer line at any space.

What an execution function does is the list of its answers: the result, and how many of
the characters up to the separator it has read.
-/

namespace VxWorks.Usb

open VxWorks.Lib VxWorks.Lib.Traced

/-- A character of a string: any octet but the zero that ends it. -/
abbrev CmdChar : Type := {c : UInt8 // c ≠ 0}

def retOk : UInt16 := 0

def retContinue : UInt16 := 2

/-- `;` -/
def cmdSeparator : CmdChar := ⟨59, by decide⟩

def maxKeywordLen : UInt16 := 32

/-- `toupper`, which leaves an octet above 127 as it is. -/
def toupper (c : UInt8) : UInt8 := if 97 ≤ c ∧ c ≤ 122 then c - 32 else c

/-- `IS_SPACE` -/
def isSpace (c : CmdChar) : Bool :=
  c.val = 32 || (9 ≤ c.val && c.val ≤ 13) || (0 < c.val && c.val < 32)

/-- What an entry is called for: itself, or to list the table. -/
inductive ExecFunc where
  | help
  | command (number : Nat)
deriving DecidableEq, Repr

/-- What `ExecCmd` reads of a `CMD_DESCR`. -/
structure CmdDescr where
  keyword : List CmdChar
  minMatch : Int32
  execFunc : ExecFunc
deriving DecidableEq

/-! ## Tokens -/

/-- `SkipSpace` -/
def skipSpace : List CmdChar → List CmdChar
  | [] => []
  | c :: s => if isSpace c then skipSpace s else c :: s

/-- A character of a command. -/
def inCommand (c : CmdChar) : Bool := c ≠ cmdSeparator

/-- A character of a token. -/
def inToken (c : CmdChar) : Bool := !isSpace c && inCommand c

/-- The loop of `GetNextToken`, with `len` characters in `pToken`: what it copies, and what is
left of the string. -/
def copyToken (tokenLen : UInt16) : Nat → List CmdChar → Traced (List CmdChar × List CmdChar)
  | _, [] => pure ([], [])
  | len, c :: s =>
      if len < tokenLen.toNat ∧ inToken c then do
        wr8 len c
        wr8 (len + 1) 0
        let (token, rest) ← copyToken tokenLen (len + 1) s
        pure (c :: token, rest)
      else pure ([], c :: s)

/-- `GetNextToken`, on the buffer `pToken`: the token it stores, and what is left. -/
def getNextToken (pStr : List CmdChar) (tokenLen : UInt16) :
    Traced (List CmdChar × List CmdChar) := do
  let pStr := skipSpace pStr
  wr8 0 0
  copyToken tokenLen 0 pStr

/-- The loop of `TruncSpace`, whose `len` has 16 bits. -/
def truncLoop : Nat → List CmdChar → List CmdChar
  | 0, pStr => pStr
  | fuel + 1, pStr =>
      match pStr.length % 0x10000 with
      | 0 => pStr
      | last + 1 =>
          if pStr[last]?.any isSpace then truncLoop fuel (pStr.take last) else pStr

/-- `TruncSpace` -/
def truncSpace (pStr : List CmdChar) : List CmdChar := truncLoop pStr.length pStr

/-! ## Keywords -/

/-- `KeywordMatch`, with `len` rounds at most. -/
def keywordMatch : List CmdChar → List CmdChar → Nat → Int
  | _, _, 0 => 0
  | [], [], _ + 1 => 0
  | [], c :: _, _ + 1 => 0 - (toupper c).toNat
  | c :: _, [], _ + 1 => (toupper c).toNat
  | c :: s1, d :: s2, len + 1 =>
      let n : Int := (toupper c).toNat - (toupper d).toNat
      if n ≠ 0 then n else keywordMatch s1 s2 len

/-- `max (strlen (keyword), (unsigned) minMatch)`, taken as an `int` by `KeywordMatch`. -/
def matchLen (token : List CmdChar) (minMatch : Int32) : Int32 :=
  (max (UInt32.ofNat token.length) minMatch.toUInt32).toInt32

/-- The test of `ExecCmd` for an entry. -/
def CmdDescr.tests (e : CmdDescr) (token : List CmdChar) : Bool :=
  keywordMatch e.keyword token (matchLen token e.minMatch).toInt.toNat = 0

/-! ## Command lines -/

/-- What an execution function gets as its parameter. -/
inductive CmdParam where
  | generic
  | cmdTable
deriving DecidableEq, Repr

def CmdDescr.param (e : CmdDescr) : CmdParam :=
  match e.execFunc with
  | .help => .cmdTable
  | .command _ => .generic

inductive CmdEvent where
  | executed (token : List CmdChar) (e : CmdDescr) (param : CmdParam)
  | unrecognized (token : List CmdChar)
deriving DecidableEq

def CmdEvent.token : CmdEvent → List CmdChar
  | .executed token _ _ => token
  | .unrecognized token => token

/-- What the call has done so far: what is left of the line, the last result, the calls of
execution functions. `lost` is set when something was stored behind `keyword`. -/
structure CmdRun where
  pCmd : List CmdChar
  s : UInt16
  calls : Nat
  events : List CmdEvent
  broke : Bool
  lost : Bool

/-- To the next separator. -/
def toSeparator (pCmd : List CmdChar) : List CmdChar := pCmd.dropWhile inCommand

/-- The end of the loop's body: over what is left of the command, and the separators. -/
def nextCommand (pCmd : List CmdChar) : List CmdChar :=
  (toSeparator pCmd).dropWhile (· = cmdSeparator)

/-- What an execution function leaves that reads `n` characters, or up to the separator. -/
def consume (n : Nat) (pCmd : List CmdChar) : List CmdChar :=
  pCmd.drop (min n (pCmd.takeWhile inCommand).length)

/-- One turn of the loop of `ExecCmd`, with the answers of the execution functions. -/
def cmdTurn (pCmdTable : List CmdDescr) (answers : Nat → UInt16 × Nat) (keyword : Buf)
    (r : CmdRun) : CmdRun :=
  let o := (getNextToken r.pCmd maxKeywordLen).run keyword
  let (token, rest) := o.val
  if o.log.all (fun t => decide (t.below maxKeywordLen.toNat)) = false then { r with lost := true }
  else if token = [] then { r with pCmd := nextCommand rest }
  else
    match pCmdTable.find? (·.tests token) with
    | none => { r with events := r.events ++ [.unrecognized token], broke := true }
    | some e =>
        let (s, n) := answers r.calls
        { r with
          pCmd := nextCommand (consume n rest)
          s := s
          calls := r.calls + 1
          events := r.events ++ [.executed token e e.param] }

/-- The loop of `ExecCmd`. -/
def cmdLoop (pCmdTable : List CmdDescr) (answers : Nat → UInt16 × Nat) (keyword : Buf) :
    Nat → CmdRun → Option CmdRun
  | 0, _ => none
  | fuel + 1, r =>
      let r := cmdTurn pCmdTable answers keyword r
      if r.lost = true ∨ r.broke = true ∨ r.pCmd = [] ∨ r.s ≠ retContinue then some r
      else cmdLoop pCmdTable answers keyword fuel r

/-- `ExecCmd` -/
def execCmd (pCmdTable : List CmdDescr) (answers : Nat → UInt16 × Nat) (keyword : Buf)
    (fuel : Nat) (pCmd : List CmdChar) : Option CmdRun :=
  cmdLoop pCmdTable answers keyword fuel ⟨truncSpace pCmd, retContinue, 0, [], false, false⟩

/-! ## What a line says -/

/-- The first token of a string. -/
def firstToken (s : List CmdChar) : List CmdChar := (skipSpace s).takeWhile inToken

/-- The first tokens of what lies between the separators, where there is one. -/
def lineTokens (line : List CmdChar) : List (List CmdChar) :=
  ((line.splitOnP (· = cmdSeparator)).map firstToken).filter (· ≠ [])

def upper (s : List CmdChar) : List UInt8 := s.map fun c => toupper c.val

/-- The token is the keyword, or a prefix of it of at least `minMatch` characters, in
upper or lower case. -/
def CmdDescr.Matches (e : CmdDescr) (token : List CmdChar) : Prop :=
  (upper token <+: upper e.keyword ∧ e.minMatch.toInt ≤ token.length) ∨ upper token = upper e.keyword

instance decidableMatches (e : CmdDescr) (token : List CmdChar) : Decidable (e.Matches token) :=
  inferInstanceAs (Decidable ((_ ∧ _) ∨ _))

/-- What is done with the tokens of a line, if `choose` finds the entry and `fits` says that
there is room for a token: the events, the result, and whether the call is lost. -/
def runTokens (choose : List CmdChar → Option CmdDescr) (fits : List CmdChar → Bool)
    (answers : Nat → UInt16 × Nat) :
    Nat → UInt16 → List (List CmdChar) → List CmdEvent × UInt16 × Bool
  | _, s, [] => ([], s, false)
  | k, s, t :: ts =>
      if fits t = false then ([], s, true)
      else
        match choose t with
        | none => ([.unrecognized t], s, false)
        | some e =>
            let s := (answers k).1
            if s = retContinue then
              let (events, s, lost) := runTokens choose fits answers (k + 1) s ts
              (.executed t e e.param :: events, s, lost)
            else ([.executed t e e.param], s, false)

/-- What is to be done: the first entry that matches, for a token of any length. -/
def specTokens (pCmdTable : List CmdDescr) (answers : Nat → UInt16 × Nat) :
    Nat → UInt16 → List (List CmdChar) → List CmdEvent × UInt16 × Bool :=
  runTokens (fun t => pCmdTable.find? (fun e => decide (e.Matches t))) (fun _ => true) answers

/-- What `ExecCmd` does. -/
def codeTokens (pCmdTable : List CmdDescr) (answers : Nat → UInt16 × Nat) :
    Nat → UInt16 → List (List CmdChar) → List CmdEvent × UInt16 × Bool :=
  runTokens (fun t => pCmdTable.find? (·.tests t)) (fun t => decide (t.length < maxKeywordLen.toNat))
    answers

/-- `ExecCmd` returns, and has done what the line says. -/
def LineRight (pCmdTable : List CmdDescr) (answers : Nat → UInt16 × Nat) (keyword : Buf)
    (line : List CmdChar) : Prop :=
  ∃ fuel r, execCmd pCmdTable answers keyword fuel line = some r ∧
    (r.events, r.s, r.lost) = specTokens pCmdTable answers 0 retContinue (lineTokens line)

/-- The tokens that are looked at: up to the first that is not recognized, or whose
command does not let the line go on. -/
def reached (pCmdTable : List CmdDescr) (answers : Nat → UInt16 × Nat) :
    Nat → List (List CmdChar) → List (List CmdChar)
  | _, [] => []
  | k, t :: ts =>
      if (∃ e ∈ pCmdTable, e.Matches t) ∧ (answers k).1 = retContinue then
        t :: reached pCmdTable answers (k + 1) ts
      else [t]

/-- The token is shorter than `keyword`, and no entry before the first that matches has a
negative `minMatch`. -/
structure TokenFair (pCmdTable : List CmdDescr) (token : List CmdChar) : Prop where
  fits : token.length < maxKeywordLen.toNat
  minMatch : ∀ e ∈ pCmdTable.takeWhile (fun e => !decide (e.Matches token)), 0 ≤ e.minMatch.toInt

/-- Every token that is reached is fair, and `TruncSpace` leaves them all. -/
structure LineFair (pCmdTable : List CmdDescr) (answers : Nat → UInt16 × Nat)
    (line : List CmdChar) : Prop where
  fair : ∀ t ∈ reached pCmdTable answers 0 (lineTokens line), TokenFair pCmdTable t
  kept : reached pCmdTable answers 0 (lineTokens (truncSpace line)) =
    reached pCmdTable answers 0 (lineTokens line)

/-! ## Tokens of a line -/

theorem skipSpace_eq (s : List CmdChar) : skipSpace s = s.dropWhile isSpace := by
  induction s with
  | nil => rfl
  | cons c s ih =>
      rw [skipSpace, List.dropWhile_cons, ih]

theorem isSpace_separator : isSpace cmdSeparator = false := by decide

theorem inCommand_of_isSpace (c : CmdChar) (h : isSpace c = true) : inCommand c = true := by
  refine decide_eq_true ?_
  intro heq
  rw [heq, isSpace_separator] at h
  cases h

theorem inCommand_of_inToken (c : CmdChar) (h : inToken c = true) : inCommand c = true :=
  (Bool.and_eq_true_iff.mp h).2

/-- The first token of a line is the one before the first separator. -/
theorem firstToken_segment (s : List CmdChar) :
    firstToken (s.takeWhile inCommand) = firstToken s := by
  rw [firstToken, firstToken, skipSpace_eq, skipSpace_eq,
    dropWhile_takeWhile_comm inCommand_of_isSpace, takeWhile_takeWhile_of_imp inCommand_of_inToken]

/-- What is left behind the first token, wherever in the command the reading stops. -/
theorem toSeparator_consume (n : Nat) (s : List CmdChar) :
    toSeparator (consume n ((skipSpace s).dropWhile inToken)) = toSeparator s := by
  rw [toSeparator, consume, dropWhile_drop (Nat.min_le_right _ _),
    dropWhile_dropWhile_of_imp inCommand_of_inToken, skipSpace_eq,
    dropWhile_dropWhile_of_imp inCommand_of_isSpace]
  rfl

theorem consume_zero (s : List CmdChar) : consume 0 s = s := by
  rw [consume, Nat.zero_min, List.drop_zero]

theorem lineTokens_append (s t : List CmdChar) :
    lineTokens (s ++ cmdSeparator :: t) = lineTokens s ++ lineTokens t := by
  rw [lineTokens, List.splitOnP_append_cons s t (decide_eq_true rfl), List.map_append,
    List.filter_append]
  rfl

theorem lineTokens_separator (s : List CmdChar) : lineTokens (cmdSeparator :: s) = lineTokens s :=
  lineTokens_append [] s

theorem lineTokens_separators (s : List CmdChar) :
    lineTokens (s.dropWhile (· = cmdSeparator)) = lineTokens s := by
  induction s with
  | nil => rfl
  | cons c s ih =>
      rw [List.dropWhile_cons]
      split
      · next h => rw [ih, of_decide_eq_true h, lineTokens_separator]
      · rfl

/-- One command. -/
theorem lineTokens_command {s : List CmdChar} (h : ∀ c ∈ s, inCommand c = true) :
    lineTokens s = [firstToken s].filter (· ≠ []) := by
  rw [lineTokens, List.splitOnP_eq_singleton fun c hc => decide_eq_false (of_decide_eq_true (h c hc))]
  rfl

theorem toSeparator_cases (s : List CmdChar) :
    toSeparator s = [] ∨ ∃ t, toSeparator s = cmdSeparator :: t := by
  induction s with
  | nil => exact .inl rfl
  | cons c s ih =>
      rw [toSeparator, List.dropWhile_cons]
      split
      · exact ih
      · next h => exact .inr ⟨s, by rw [not_not.mp fun hne => h (decide_eq_true hne)]⟩

/-- The tokens of a line are the first one, where there is one before the first separator,
and those behind it. -/
theorem lineTokens_next (s : List CmdChar) :
    lineTokens s = [firstToken s].filter (· ≠ []) ++ lineTokens (toSeparator s) := by
  have hsplit : s.takeWhile inCommand ++ toSeparator s = s := List.takeWhile_append_dropWhile
  have hclear : ∀ c ∈ s.takeWhile inCommand, inCommand c = true := fun c hc =>
    List.mem_takeWhile_imp hc
  have hcommand := lineTokens_command hclear
  rw [firstToken_segment] at hcommand
  rcases toSeparator_cases s with hend | ⟨t, hend⟩ <;> rw [hend] at hsplit ⊢
  · rw [List.append_nil] at hsplit
    rw [hsplit] at hcommand
    rw [hcommand]
    exact (List.append_nil _).symm
  · conv_lhs => rw [← hsplit]
    rw [lineTokens_append, lineTokens_separator, hcommand]

/-- Whatever a command reads, the next one begins behind the separators. -/
theorem lineTokens_nextCommand (n : Nat) (s : List CmdChar) :
    lineTokens (nextCommand (consume n ((skipSpace s).dropWhile inToken))) =
      lineTokens (toSeparator s) := by
  rw [nextCommand, toSeparator_consume, lineTokens_separators]

theorem lineTokens_token {s : List CmdChar} (h : firstToken s ≠ []) (n : Nat) :
    lineTokens s = firstToken s ::
      lineTokens (nextCommand (consume n ((skipSpace s).dropWhile inToken))) := by
  rw [lineTokens_nextCommand, lineTokens_next s,
    List.filter_cons_of_pos (p := fun t => decide (t ≠ [])) (decide_eq_true h)]
  rfl

theorem lineTokens_blank {s : List CmdChar} (h : firstToken s = []) (n : Nat) :
    lineTokens s = lineTokens (nextCommand (consume n ((skipSpace s).dropWhile inToken))) := by
  rw [lineTokens_nextCommand, lineTokens_next s, h]
  rfl

/-- The next command begins further on. -/
theorem length_nextCommand (n : Nat) {s : List CmdChar} (h : s ≠ []) :
    (nextCommand (consume n ((skipSpace s).dropWhile inToken))).length < s.length := by
  rw [nextCommand, toSeparator_consume]
  have hle : (toSeparator s).length ≤ s.length := (List.dropWhile_sublist _).length_le
  rcases toSeparator_cases s with hend | ⟨t, hend⟩ <;> rw [hend] at hle ⊢
  · exact List.length_pos_of_ne_nil h
  · rw [List.dropWhile_cons_of_pos (p := (decide <| · = cmdSeparator)) (decide_eq_true rfl)]
    exact lt_of_le_of_lt (List.dropWhile_sublist _).length_le hle

/-! ## `GetNextToken` -/

/-- What is copied where there is room for the token. -/
theorem copyToken_val {tokenLen : UInt16} {len : Nat} {s : List CmdChar} (b : Buf)
    (h : len + (s.takeWhile inToken).length ≤ tokenLen.toNat) :
    ((copyToken tokenLen len s).run b).val =
      (s.takeWhile inToken, s.dropWhile inToken) := by
  induction s generalizing len b with
  | nil => rfl
  | cons c s ih =>
      rw [copyToken]
      cases hc : inToken c with
      | false =>
          rw [if_neg fun hand => absurd hand.2 Bool.noConfusion,
            List.takeWhile_cons_of_neg (by rw [hc]; decide),
            List.dropWhile_cons_of_neg (by rw [hc]; decide)]
          rfl
      | true =>
          rw [List.takeWhile_cons_of_pos hc, List.length_cons] at h
          rw [if_pos ⟨by omega, rfl⟩, List.takeWhile_cons_of_pos hc, List.dropWhile_cons_of_pos hc]
          simp only [bind_val, ih _ (show len + 1 + _ ≤ tokenLen.toNat by omega), pure_val]

theorem stays_copyToken {tokenLen : UInt16} {len : Nat} {s : List CmdChar} (b : Buf)
    (h : len < tokenLen.toNat) :
    Stays (Touch.below tokenLen.toNat) (copyToken tokenLen len s) b ↔
      len + (s.takeWhile inToken).length < tokenLen.toNat := by
  induction s generalizing len b with
  | nil => exact iff_of_true (fun t ht => absurd ht List.not_mem_nil) h
  | cons c s ih =>
      rw [copyToken]
      cases hc : inToken c with
      | false =>
          rw [if_neg fun hand => absurd hand.2 Bool.noConfusion,
            List.takeWhile_cons_of_neg (by rw [hc]; decide)]
          exact iff_of_true (fun t ht => absurd ht List.not_mem_nil) h
      | true =>
          rw [if_pos ⟨h, rfl⟩, List.takeWhile_cons_of_pos hc, List.length_cons]
          simp only [stays_bind, stays_wr8, Touch.below_write, stays_pure, and_true, wr8_buf]
          by_cases hnext : len + 1 < tokenLen.toNat
          · rw [ih _ hnext, Nat.add_right_comm len 1, ← Nat.add_assoc]
            exact ⟨fun hand => hand.2.2, fun hlt => ⟨h, hnext, hlt⟩⟩
          · exact iff_of_false (fun hand => hnext hand.2.1) (by omega)

/-- `GetNextToken` stays in its buffer exactly if the token is shorter. -/
theorem stays_getNextToken (pStr : List CmdChar) (tokenLen : UInt16) (b : Buf) :
    Stays (Touch.below tokenLen.toNat) (getNextToken pStr tokenLen) b ↔
      (firstToken pStr).length < tokenLen.toNat := by
  rw [getNextToken, stays_bind, stays_wr8, Touch.below_write, wr8_buf]
  by_cases hpos : 0 < tokenLen.toNat
  · rw [stays_copyToken _ hpos, Nat.zero_add]
    exact ⟨And.right, fun h => ⟨hpos, h⟩⟩
  · exact iff_of_false (fun h => hpos h.1) (by omega)

theorem getNextToken_val {pStr : List CmdChar} {tokenLen : UInt16} (b : Buf)
    (h : (firstToken pStr).length ≤ tokenLen.toNat) :
    ((getNextToken pStr tokenLen).run b).val =
      (firstToken pStr, (skipSpace pStr).dropWhile inToken) := by
  rw [getNextToken, bind_val]
  refine copyToken_val _ ?_
  rwa [Nat.zero_add]

/-! ## What a keyword matches -/

theorem toupper_pos (c : CmdChar) : 0 < (toupper c).toNat := by
  have hc : c.val.toNat ≠ 0 := fun h => c.property (UInt8.toNat_inj.mp h)
  rw [toupper]
  split
  · next h =>
      have hle : (97 : UInt8).toNat ≤ c.val.toNat := UInt8.le_iff_toNat_le.mp h.1
      have h97 : (97 : UInt8).toNat = 97 := rfl
      have h32 : (32 : UInt8).toNat = 32 := rfl
      rw [UInt8.toNat_sub_of_le _ _ (UInt8.le_iff_toNat_le.mpr (by omega)), h32]
      omega
  · exact Nat.pos_of_ne_zero hc

/-- `KeywordMatch` compares up to `len` characters, the zero at the end included. -/
theorem keywordMatch_eq_zero_iff (s1 s2 : List CmdChar) (len : Nat) :
    keywordMatch s1 s2 len = 0 ↔ (upper s1).take len = (upper s2).take len := by
  fun_induction keywordMatch s1 s2 len with
  | case1 => simp only [List.take_zero]
  | case2 => exact iff_of_true rfl rfl
  | case3 c s len =>
      have hpos := toupper_pos c
      refine iff_of_false (by omega) ?_
      intro h
      cases h
  | case4 c s len =>
      have hpos := toupper_pos c
      refine iff_of_false (by omega) ?_
      intro h
      cases h
  | case5 c s1 d s2 len n hn =>
      refine iff_of_false hn fun h => hn ?_
      have hhead : toupper c.val = toupper d.val := (List.cons.inj h).1
      rw [show n = (toupper c.val).toNat - (toupper d.val).toNat from rfl, hhead, sub_self]
  | case6 c s1 d s2 len n hn ih =>
      have hhead : toupper c.val = toupper d.val := by
        have heq : ((toupper c.val).toNat : Int) = (toupper d.val).toNat :=
          sub_eq_zero.mp (not_not.mp hn)
        exact UInt8.toNat_inj.mp (Int.ofNat.inj heq)
      rw [ih]
      simp only [upper, List.map_cons, List.take_succ_cons, hhead, List.cons.injEq, true_and]

theorem length_upper (s : List CmdChar) : (upper s).length = s.length := List.length_map _

/-- Two strings agree up to `max (strlen (s2), n)` characters exactly if the second is the
first, or a prefix of it of at least `n` characters. -/
theorem take_max_eq_iff {α : Type} (l m : List α) (n : Nat) :
    l.take (max m.length n) = m.take (max m.length n) ↔ (m <+: l ∧ n ≤ m.length) ∨ m = l := by
  rw [List.take_of_length_le (l := m) (le_max_left _ _)]
  constructor
  · intro h
    by_cases hn : n ≤ m.length
    · rw [max_eq_left hn] at h
      exact .inl ⟨List.prefix_iff_eq_take.mpr h.symm, hn⟩
    · rw [max_eq_right (Nat.le_of_not_le hn)] at h
      refine .inr ?_
      have hlen := congrArg List.length h
      rw [List.length_take] at hlen
      rw [List.take_of_length_le (by omega)] at h
      exact h.symm
  · rintro (⟨hpre, hn⟩ | rfl)
    · rw [max_eq_left hn]
      exact (List.prefix_iff_eq_take.mp hpre).symm
    · exact List.take_of_length_le (le_max_left _ _)

theorem int32_toInt (x : Int32) : x.toInt =
    if 2 * x.toUInt32.toNat < 2 ^ 32 then (x.toUInt32.toNat : Int) else x.toUInt32.toNat - 2 ^ 32 :=
  BitVec.toInt_eq_toNat_cond x.toBitVec

theorem uint32_max (a b : UInt32) : (max a b).toNat = max a.toNat b.toNat := by
  show (if a ≤ b then b else a).toNat = _
  rw [apply_ite UInt32.toNat, Nat.max_def]
  exact if_congr UInt32.le_iff_toNat_le rfl rfl

/-- A token that fits in `keyword` is as long as the number of rounds says, but for a
negative `minMatch`: then there are none. -/
theorem matchLen_toNat {token : List CmdChar} (h : token.length < maxKeywordLen.toNat)
    (minMatch : Int32) :
    (matchLen token minMatch).toInt.toNat =
      if 0 ≤ minMatch.toInt then max token.length minMatch.toInt.toNat else 0 := by
  have hlen : token.length < 32 := h
  have htoken : (UInt32.ofNat token.length).toNat = token.length := by
    rw [UInt32.toNat_ofNat', Nat.mod_eq_of_lt (by omega)]
  have hbound := minMatch.toUInt32.toNat_lt
  have hmax : (matchLen token minMatch).toUInt32.toNat =
      max token.length minMatch.toUInt32.toNat := by
    rw [← htoken]
    exact uint32_max _ _
  rw [int32_toInt, int32_toInt, hmax]
  grind
theorem tests_iff {e : CmdDescr} {token : List CmdChar}
    (h : token.length < maxKeywordLen.toNat) :
    e.tests token = true ↔ e.minMatch.toInt < 0 ∨ e.Matches token := by
  rw [CmdDescr.tests, decide_eq_true_iff, keywordMatch_eq_zero_iff, matchLen_toNat h]
  split
  · next hneg =>
      rw [← length_upper token, take_max_eq_iff, CmdDescr.Matches, Int.toNat_le, length_upper]
      exact ⟨.inr, fun hor => hor.resolve_left (not_lt.mpr hneg)⟩
  · next hneg => exact iff_of_true rfl (.inl (not_le.mp hneg))

/-! ## The choice -/

section

variable {pCmdTable : List CmdDescr} {answers : Nat → UInt16 × Nat} {token : List CmdChar}

/-- The first entry that passes the test is the first that matches, exactly if no entry
before that one has a negative `minMatch`. -/
theorem find_tests_iff (h : token.length < maxKeywordLen.toNat) :
    pCmdTable.find? (·.tests token) = pCmdTable.find? (fun e => decide (e.Matches token)) ↔
      ∀ e ∈ pCmdTable.takeWhile (fun e => !decide (e.Matches token)), 0 ≤ e.minMatch.toInt := by
  induction pCmdTable with
  | nil => exact iff_of_true rfl fun e he => absurd he List.not_mem_nil
  | cons e table ih =>
      by_cases hmatches : e.Matches token
      · rw [List.find?_cons_of_pos (p := fun e : CmdDescr => e.tests token)
            ((tests_iff h).mpr (.inr hmatches)),
          List.find?_cons_of_pos (p := fun e : CmdDescr => decide (e.Matches token))
            (decide_eq_true hmatches),
          List.takeWhile_cons_of_neg (by rw [decide_eq_true hmatches]; decide)]
        exact iff_of_true rfl fun e he => absurd he List.not_mem_nil
      · rw [List.find?_cons_of_neg (p := fun e : CmdDescr => decide (e.Matches token))
            (by rw [decide_eq_false hmatches]; decide),
          List.takeWhile_cons_of_pos (by rw [decide_eq_false hmatches]; rfl), List.forall_mem_cons]
        by_cases hneg : e.minMatch.toInt < 0
        · rw [List.find?_cons_of_pos (p := fun e : CmdDescr => e.tests token)
            ((tests_iff h).mpr (.inl hneg))]
          refine iff_of_false ?_ fun hall => absurd hneg (not_lt.mpr hall.1)
          intro hfind
          have hsome := List.find?_some (p := fun e : CmdDescr => decide (e.Matches token)) hfind.symm
          exact hmatches (of_decide_eq_true hsome)
        · have htests : ¬ e.tests token = true := fun htest =>
            ((tests_iff h).mp htest).elim hneg hmatches
          rw [List.find?_cons_of_neg (p := fun e : CmdDescr => e.tests token) htests, ih]
          exact ⟨fun hall => ⟨not_lt.mp hneg, hall⟩, And.right⟩

theorem find_some_of_matches (h : ∃ e ∈ pCmdTable, e.Matches token) :
    ∃ e, pCmdTable.find? (fun e => decide (e.Matches token)) = some e := by
  obtain ⟨e, he, hmatches⟩ := h
  exact Option.isSome_iff_exists.mp (List.find?_isSome.mpr ⟨e, he, decide_eq_true hmatches⟩)

theorem matches_of_find {e : CmdDescr}
    (h : pCmdTable.find? (fun e => decide (e.Matches token)) = some e) : e.Matches token :=
  of_decide_eq_true (List.find?_some (p := fun e : CmdDescr => decide (e.Matches token)) h)

theorem find_none_of_matches (h : ¬ ∃ e ∈ pCmdTable, e.Matches token) :
    pCmdTable.find? (fun e => decide (e.Matches token)) = none :=
  List.find?_eq_none.mpr fun e he hmatches => h ⟨e, he, of_decide_eq_true hmatches⟩

/-- What is done is done with the tokens that are reached. -/
theorem specTokens_reached (k : Nat) (s : UInt16) (ts : List (List CmdChar)) :
    specTokens pCmdTable answers k s (reached pCmdTable answers k ts) =
      specTokens pCmdTable answers k s ts := by
  induction ts generalizing k s with
  | nil => rfl
  | cons t ts ih =>
      rw [reached]
      split
      · next h =>
          obtain ⟨e, he⟩ := find_some_of_matches h.1
          have hrest := ih (k + 1) retContinue
          rw [specTokens] at hrest ⊢
          simp only [runTokens, he, h.2, if_true, Bool.true_eq_false, if_false]
          rw [hrest]
      · next h =>
          rw [specTokens]
          by_cases hmatches : ∃ e ∈ pCmdTable, e.Matches t
          · obtain ⟨e, he⟩ := find_some_of_matches hmatches
            have hstop : (answers k).1 ≠ retContinue := fun hgo => h ⟨hmatches, hgo⟩
            simp only [runTokens, he, if_neg hstop, Bool.true_eq_false, if_false]
          · simp only [runTokens, find_none_of_matches hmatches, Bool.true_eq_false, if_false]

/-- Where all tokens reached are fair, the code does what is to be done. -/
theorem codeTokens_of_fair {k : Nat} {s : UInt16} {ts : List (List CmdChar)}
    (h : ∀ t ∈ reached pCmdTable answers k ts, TokenFair pCmdTable t) :
    codeTokens pCmdTable answers k s ts = specTokens pCmdTable answers k s ts := by
  induction ts generalizing k s with
  | nil => rfl
  | cons t ts ih =>
      have ht : TokenFair pCmdTable t := by
        refine h t ?_
        rw [reached]
        split <;> exact List.mem_cons_self
      have hfind := (find_tests_iff ht.fits).mpr ht.minMatch
      rw [codeTokens, specTokens] at ih ⊢
      rw [runTokens, runTokens, if_neg (by rw [decide_eq_true ht.fits]; decide),
        if_neg (by decide), hfind]
      split
      · rfl
      · next e he =>
          dsimp only
          split
          · next hgo =>
              have hmatches : ∃ e ∈ pCmdTable, e.Matches t :=
                ⟨e, List.mem_of_find?_eq_some he, matches_of_find he⟩
              rw [reached, if_pos ⟨hmatches, hgo⟩] at h
              rw [ih fun u hu => h u (List.mem_cons_of_mem t hu)]
          · rfl

/-- The events are about the tokens that are reached. -/
theorem specTokens_token (k : Nat) (s : UInt16) (ts : List (List CmdChar)) :
    (specTokens pCmdTable answers k s ts).1.map CmdEvent.token = reached pCmdTable answers k ts := by
  induction ts generalizing k s with
  | nil => rfl
  | cons t ts ih =>
      rw [specTokens] at ih ⊢
      rw [runTokens, if_neg (by decide), reached]
      by_cases hmatches : ∃ e ∈ pCmdTable, e.Matches t
      · obtain ⟨e, he⟩ := find_some_of_matches hmatches
        rw [he]
        dsimp only
        by_cases hgo : (answers k).1 = retContinue
        · rw [if_pos hgo, if_pos ⟨hmatches, hgo⟩, List.map_cons, ih]
          rfl
        · rw [if_neg hgo, if_neg fun hand => hgo hand.2]
          rfl
      · rw [find_none_of_matches hmatches, if_neg fun hand => hmatches hand.1]
        rfl

theorem specTokens_lost (k : Nat) (s : UInt16) (ts : List (List CmdChar)) :
    (specTokens pCmdTable answers k s ts).2.2 = false := by
  induction ts generalizing k s with
  | nil => rfl
  | cons t ts ih =>
      rw [specTokens] at ih ⊢
      rw [runTokens, if_neg (by decide)]
      split
      · rfl
      · dsimp only
        split
        · exact ih (k + 1) _
        · rfl

/-- A fair token that is not the last one reached. -/
theorem reached_cons_congr {k : Nat} {t : List CmdChar} {ts ts' : List (List CmdChar)}
    (ht : TokenFair pCmdTable t)
    (h : (∃ e ∈ pCmdTable, e.Matches t) → (answers k).1 = retContinue →
      (∀ u ∈ reached pCmdTable answers (k + 1) ts, TokenFair pCmdTable u) ∧
        reached pCmdTable answers (k + 1) ts' = reached pCmdTable answers (k + 1) ts) :
    (∀ u ∈ reached pCmdTable answers k (t :: ts), TokenFair pCmdTable u) ∧
      reached pCmdTable answers k (t :: ts') = reached pCmdTable answers k (t :: ts) := by
  rw [reached, reached]
  by_cases hgo : (∃ e ∈ pCmdTable, e.Matches t) ∧ (answers k).1 = retContinue
  · obtain ⟨hfair, hsame⟩ := h hgo.1 hgo.2
    rw [if_pos hgo, if_pos hgo, hsame]
    exact ⟨List.forall_mem_cons.mpr ⟨ht, hfair⟩, rfl⟩
  · rw [if_neg hgo, if_neg hgo]
    exact ⟨List.forall_mem_singleton.mpr ht, rfl⟩

theorem fits_of_kept {k : Nat} {s : UInt16} {t : List CmdChar} {ts : List (List CmdChar)}
    (h : (codeTokens pCmdTable answers k s (t :: ts)).2.2 = false) :
    t.length < maxKeywordLen.toNat := by
  by_contra hlong
  rw [codeTokens] at h
  rw [runTokens, if_pos (decide_eq_false hlong)] at h
  cases h

/-- The first event tells which entry has been found. -/
theorem find_eq_of_codeTokens {k : Nat} {s : UInt16} {t : List CmdChar}
    {ts ts' : List (List CmdChar)} (hfits : t.length < maxKeywordLen.toNat)
    (h : codeTokens pCmdTable answers k s (t :: ts') = specTokens pCmdTable answers k s (t :: ts)) :
    pCmdTable.find? (fun e => e.tests t) = pCmdTable.find? (fun e => decide (e.Matches t)) := by
  rw [codeTokens, specTokens] at h
  rw [runTokens, runTokens, if_neg (show ¬ true = false by decide), decide_eq_true hfits,
    if_neg (show ¬ true = false by decide)] at h
  have hevents := congrArg Prod.fst h
  cases hcode : pCmdTable.find? (fun e => e.tests t) with
  | none =>
      cases hspec : pCmdTable.find? (fun e => decide (e.Matches t)) with
      | none => rfl
      | some e' =>
          rw [hcode, hspec] at hevents
          dsimp only at hevents
          split at hevents <;> cases hevents
  | some e =>
      cases hspec : pCmdTable.find? (fun e => decide (e.Matches t)) with
      | none =>
          rw [hcode, hspec] at hevents
          dsimp only at hevents
          split at hevents <;> cases hevents
      | some e' =>
          rw [hcode, hspec] at hevents
          dsimp only at hevents
          split at hevents <;> cases (List.cons.inj hevents).1 <;> rfl

/-- Where the code does with the first tokens what is to be done with all of them, those
reached are fair, and are among the first. -/
theorem fair_of_codeTokens {k : Nat} {s : UInt16} {ts ts' : List (List CmdChar)}
    (hpre : ts' <+: ts)
    (h : codeTokens pCmdTable answers k s ts' = specTokens pCmdTable answers k s ts) :
    (∀ t ∈ reached pCmdTable answers k ts, TokenFair pCmdTable t) ∧
      reached pCmdTable answers k ts' = reached pCmdTable answers k ts := by
  induction ts' generalizing k s ts with
  | nil =>
      have hnone : reached pCmdTable answers k ts = [] := by
        rw [← specTokens_token k s ts, ← h]
        rfl
      rw [hnone]
      exact ⟨fun t ht => absurd ht List.not_mem_nil, rfl⟩
  | cons t ts' ih =>
      obtain ⟨rest, rfl⟩ := hpre
      rw [List.cons_append] at h ⊢
      have hfits : t.length < maxKeywordLen.toNat :=
        fits_of_kept (h.symm ▸ specTokens_lost k s (t :: (ts' ++ rest)))
      have hfind := find_eq_of_codeTokens hfits h
      have ht : TokenFair pCmdTable t := ⟨hfits, (find_tests_iff hfits).mp hfind⟩
      refine reached_cons_congr ht ?_
      intro hmatches hgo
      -- both go on with the next token, and have done the same up to here
      obtain ⟨e, he⟩ := find_some_of_matches hmatches
      rw [codeTokens, specTokens] at h
      rw [runTokens, runTokens, if_neg (show ¬ true = false by decide), decide_eq_true hfits,
        if_neg (show ¬ true = false by decide), hfind, he] at h
      dsimp only at h
      rw [if_pos hgo, if_pos hgo] at h
      obtain ⟨hevents, hrest⟩ := Prod.mk.inj h
      exact ih (List.prefix_append ts' rest) (Prod.ext (List.cons.inj hevents).2 hrest)

end

/-! ## `ExecCmd` -/

section

variable {pCmdTable : List CmdDescr} {answers : Nat → UInt16 × Nat} {keyword : Buf} {r : CmdRun}

theorem log_all_iff (pStr : List CmdChar) (b : Buf) :
    ((getNextToken pStr maxKeywordLen).run b).log.all
        (fun t => decide (t.below maxKeywordLen.toNat)) = true ↔
      (firstToken pStr).length < maxKeywordLen.toNat := by
  rw [← stays_getNextToken pStr maxKeywordLen b, List.all_eq_true]
  exact forall₂_congr fun t _ => decide_eq_true_iff

/-- A turn that meets a token too long. -/
theorem cmdTurn_long (h : ¬ (firstToken r.pCmd).length < maxKeywordLen.toNat) :
    cmdTurn pCmdTable answers keyword r = { r with lost := true } := by
  have hlog := Bool.eq_false_iff.mpr fun hall => h ((log_all_iff r.pCmd keyword).mp hall)
  exact if_pos hlog

/-- A turn that meets a token there is room for, or none. -/
theorem cmdTurn_short (h : (firstToken r.pCmd).length < maxKeywordLen.toNat) :
    cmdTurn pCmdTable answers keyword r =
      if firstToken r.pCmd = [] then
        { r with pCmd := nextCommand (consume 0 ((skipSpace r.pCmd).dropWhile inToken)) }
      else
        match pCmdTable.find? (·.tests (firstToken r.pCmd)) with
        | none =>
            { r with events := r.events ++ [.unrecognized (firstToken r.pCmd)], broke := true }
        | some e =>
            { r with
              pCmd := nextCommand (consume (answers r.calls).2
                ((skipSpace r.pCmd).dropWhile inToken))
              s := (answers r.calls).1
              calls := r.calls + 1
              events := r.events ++ [.executed (firstToken r.pCmd) e e.param] } := by
  have hlog := (log_all_iff r.pCmd keyword).mpr h
  unfold cmdTurn
  simp only [hlog, getNextToken_val keyword h.le, Bool.true_eq_false, if_false, consume_zero]

section

variable {k : Nat} {s : UInt16} {t : List CmdChar} {ts : List (List CmdChar)} {e : CmdDescr}

theorem codeTokens_long (h : ¬ t.length < maxKeywordLen.toNat) :
    codeTokens pCmdTable answers k s (t :: ts) = ([], s, true) := by
  rw [codeTokens]
  rw [runTokens, if_pos (decide_eq_false h)]

theorem codeTokens_none (h : t.length < maxKeywordLen.toNat)
    (hfind : pCmdTable.find? (·.tests t) = none) :
    codeTokens pCmdTable answers k s (t :: ts) = ([.unrecognized t], s, false) := by
  rw [codeTokens]
  rw [runTokens, decide_eq_true h, if_neg (by decide), hfind]

theorem codeTokens_go (h : t.length < maxKeywordLen.toNat)
    (hfind : pCmdTable.find? (·.tests t) = some e) (hgo : (answers k).1 = retContinue) :
    codeTokens pCmdTable answers k s (t :: ts) =
      (.executed t e e.param :: (codeTokens pCmdTable answers (k + 1) retContinue ts).1,
        (codeTokens pCmdTable answers (k + 1) retContinue ts).2) := by
  rw [codeTokens]
  rw [runTokens, decide_eq_true h, if_neg (by decide), hfind]
  simp only [hgo, if_true]

theorem codeTokens_stop (h : t.length < maxKeywordLen.toNat)
    (hfind : pCmdTable.find? (·.tests t) = some e) (hstop : (answers k).1 ≠ retContinue) :
    codeTokens pCmdTable answers k s (t :: ts) =
      ([.executed t e e.param], (answers k).1, false) := by
  rw [codeTokens]
  rw [runTokens, decide_eq_true h, if_neg (by decide), hfind]
  simp only [if_neg hstop]

end

/-- The loop does with the line what `codeTokens` does with its tokens, in fewer turns than
the line has characters, and one. -/
theorem cmdLoop_eq {fuel : Nat} (hfuel : r.pCmd.length < fuel) (hs : r.s = retContinue)
    (hbroke : r.broke = false) (hlost : r.lost = false) :
    ∃ r', cmdLoop pCmdTable answers keyword fuel r = some r' ∧
      (r'.events, r'.s, r'.lost) =
        (r.events ++ (codeTokens pCmdTable answers r.calls r.s (lineTokens r.pCmd)).1,
          (codeTokens pCmdTable answers r.calls r.s (lineTokens r.pCmd)).2) := by
  induction fuel generalizing r with
  | zero => exact absurd hfuel (Nat.not_lt_zero _)
  | succ fuel ih =>
      -- a turn that lets the loop go on, unless the line is at its end
      have hon : ∀ r₁ : CmdRun, cmdTurn pCmdTable answers keyword r = r₁ →
          (∃ n, r₁.pCmd = nextCommand (consume n ((skipSpace r.pCmd).dropWhile inToken))) →
          r₁.s = retContinue → r₁.broke = false → r₁.lost = false →
          ∃ r', cmdLoop pCmdTable answers keyword (fuel + 1) r = some r' ∧
            (r'.events, r'.s, r'.lost) =
              (r₁.events ++ (codeTokens pCmdTable answers r₁.calls r₁.s (lineTokens r₁.pCmd)).1,
                (codeTokens pCmdTable answers r₁.calls r₁.s (lineTokens r₁.pCmd)).2) := by
        intro r₁ hturn ⟨n, hn⟩ hs₁ hbroke₁ hlost₁
        rw [cmdLoop, hturn]
        by_cases hend : r₁.pCmd = []
        · refine ⟨r₁, if_pos (.inr (.inr (.inl hend))), ?_⟩
          rw [hend, show lineTokens [] = [] from rfl]
          show _ = (r₁.events ++ [], r₁.s, false)
          rw [List.append_nil, hlost₁]
        · have hne : r.pCmd ≠ [] := fun hnil => hend (by
            rw [hn, hnil, nextCommand, toSeparator_consume]
            rfl)
          have hlt : r₁.pCmd.length < r.pCmd.length := hn ▸ length_nextCommand n hne
          have hcond : ¬ (r₁.lost = true ∨ r₁.broke = true ∨ r₁.pCmd = [] ∨ r₁.s ≠ retContinue) := by
            rw [hlost₁, hbroke₁]
            rintro (h | h | h | h)
            · cases h
            · cases h
            · exact hend h
            · exact h hs₁
          rw [if_neg hcond]
          exact ih (by omega) hs₁ hbroke₁ hlost₁
      by_cases hfits : (firstToken r.pCmd).length < maxKeywordLen.toNat
      · have hshort := @cmdTurn_short pCmdTable answers keyword r hfits
        by_cases hblank : firstToken r.pCmd = []
        · rw [if_pos hblank] at hshort
          obtain ⟨r', hloop, hr'⟩ := hon _ hshort ⟨0, rfl⟩ hs hbroke hlost
          rw [lineTokens_blank hblank 0]
          exact ⟨r', hloop, hr'⟩
        · rw [if_neg hblank] at hshort
          cases hfind : pCmdTable.find? (fun e => e.tests (firstToken r.pCmd)) with
          | none =>
              rw [hfind] at hshort
              rw [cmdLoop, hshort, lineTokens_token hblank 0, codeTokens_none hfits hfind]
              exact ⟨_, if_pos (.inr (.inl rfl)), by rw [hlost]⟩
          | some e =>
              rw [hfind] at hshort
              rw [lineTokens_token hblank (answers r.calls).2]
              by_cases hgo : (answers r.calls).1 = retContinue
              · obtain ⟨r', hloop, hr'⟩ := hon _ hshort ⟨_, rfl⟩ hgo hbroke hlost
                refine ⟨r', hloop, hr'.trans ?_⟩
                rw [codeTokens_go hfits hfind hgo, hgo, List.append_assoc]
                rfl
              · rw [cmdLoop, hshort, codeTokens_stop hfits hfind hgo]
                exact ⟨_, if_pos (.inr (.inr (.inr hgo))), by rw [hlost]⟩
      · have hne : firstToken r.pCmd ≠ [] := by
          intro hnil
          rw [hnil] at hfits
          exact hfits (by decide)
        rw [cmdLoop, cmdTurn_long hfits, lineTokens_token hne 0, codeTokens_long hfits]
        exact ⟨_, if_pos (.inl rfl), by rw [List.append_nil]⟩

/-! ## `TruncSpace` -/

theorem inToken_of_isSpace {c : CmdChar} (h : isSpace c = true) : inToken c = false := by
  rw [inToken, h]
  rfl

theorem firstToken_cons_space {c : CmdChar} (h : isSpace c = true) (s : List CmdChar) :
    firstToken (c :: s) = firstToken s := by
  rw [firstToken, skipSpace, if_pos h]
  rfl

theorem firstToken_cons_of_not {c : CmdChar} (h : ¬ isSpace c = true) (s : List CmdChar) :
    firstToken (c :: s) = (c :: s).takeWhile inToken := by
  rw [firstToken, skipSpace, if_neg h]

/-- A token that a space follows is the same without what comes behind. -/
theorem firstToken_cut {s : List CmdChar} (h : firstToken s ≠ []) (t : List CmdChar) {c : CmdChar}
    (hc : isSpace c = true) : firstToken (s ++ c :: t) = firstToken s := by
  induction s with
  | nil => exact absurd rfl h
  | cons d s ih =>
      rw [List.cons_append]
      by_cases hd : isSpace d = true
      · rw [firstToken_cons_space hd] at h ⊢
        rw [firstToken_cons_space hd, ih h]
      · rw [firstToken_cons_of_not hd, firstToken_cons_of_not hd, ← List.cons_append,
          takeWhile_append_stop (inToken_of_isSpace hc)]

/-- A space at the end of a blank command leaves it blank. -/
theorem firstToken_space {s : List CmdChar} (h : firstToken s = [])
    (hclear : ∀ d ∈ s, inCommand d = true) {c : CmdChar} (hc : isSpace c = true) :
    firstToken (s ++ [c]) = [] := by
  induction s with
  | nil => exact firstToken_cons_space hc []
  | cons d s ih =>
      obtain ⟨hd, hrest⟩ := List.forall_mem_cons.mp hclear
      by_cases hspace : isSpace d = true
      · rw [firstToken_cons_space hspace] at h
        rw [List.cons_append, firstToken_cons_space hspace, ih h hrest]
      · have htoken : inToken d = true := by
          rw [inToken, hd, Bool.eq_false_iff.mpr hspace]
          rfl
        rw [firstToken_cons_of_not hspace, List.takeWhile_cons_of_pos htoken] at h
        cases h

/-- A string is one command, or one before a separator and what is behind it. -/
theorem command_cases (s : List CmdChar) :
    (∀ c ∈ s, inCommand c = true) ∨ ∃ a b, s = a ++ cmdSeparator :: b := by
  have hsplit : s.takeWhile inCommand ++ toSeparator s = s := List.takeWhile_append_dropWhile
  rcases toSeparator_cases s with hend | ⟨t, hend⟩ <;> rw [hend] at hsplit
  · rw [List.append_nil] at hsplit
    exact .inl fun c hc => List.mem_takeWhile_imp (hsplit.symm ▸ hc)
  · exact .inr ⟨_, t, hsplit.symm⟩

/-- What is cut off at a space takes no token before it away. -/
theorem lineTokens_cut (s t : List CmdChar) {c : CmdChar} (hc : isSpace c = true) :
    lineTokens s <+: lineTokens (s ++ c :: t) := by
  induction hn : s.length using Nat.strong_induction_on generalizing s with
  | _ n ih =>
      rcases command_cases s with hclear | ⟨a, b, rfl⟩
      · by_cases hblank : firstToken s = []
        · rw [lineTokens_command hclear, hblank]
          exact List.nil_prefix
        · have hcut := firstToken_cut hblank t hc
          rw [lineTokens_command hclear,
            List.filter_cons_of_pos (p := fun t => decide (t ≠ [])) (decide_eq_true hblank),
            lineTokens_token (s := s ++ c :: t) (by rw [hcut]; exact hblank) 0, hcut]
          exact List.prefix_append [firstToken s] _
      · rw [List.append_assoc, List.cons_append, lineTokens_append, lineTokens_append]
        refine (List.prefix_append_right_inj _).mpr (ih _ ?_ b rfl)
        rw [← hn, List.length_append, List.length_cons]
        omega

theorem lineTokens_space (s : List CmdChar) {c : CmdChar} (hc : isSpace c = true) :
    lineTokens (s ++ [c]) = lineTokens s := by
  induction hn : s.length using Nat.strong_induction_on generalizing s with
  | _ n ih =>
      rcases command_cases s with hclear | ⟨a, b, rfl⟩
      · have hclear' : ∀ d ∈ s ++ [c], inCommand d = true := by
          rw [List.forall_mem_append, List.forall_mem_singleton]
          exact ⟨hclear, inCommand_of_isSpace c hc⟩
        rw [lineTokens_command hclear, lineTokens_command hclear']
        by_cases hblank : firstToken s = []
        · rw [firstToken_space hblank hclear hc, hblank]
        · rw [firstToken_cut hblank [] hc]
      · rw [List.append_assoc, List.cons_append, lineTokens_append, lineTokens_append, ih _ ?_ b rfl]
        rw [← hn, List.length_append, List.length_cons]
        omega

/-- The place where `TruncSpace` cuts. -/
theorem split_at_space {s : List CmdChar} {last : Nat} (h : s[last]?.any isSpace = true) :
    ∃ c t, isSpace c = true ∧ s = s.take last ++ c :: t ∧ s.length = last + 1 + t.length := by
  cases hget : s[last]? with
  | none =>
      rw [hget] at h
      cases h
  | some c =>
      rw [hget] at h
      obtain ⟨hlt, rfl⟩ := List.getElem?_eq_some_iff.mp hget
      refine ⟨s[last], s.drop (last + 1), h, ?_, ?_⟩
      · rw [← List.drop_eq_getElem_cons hlt, List.take_append_drop]
      · rw [List.length_drop]
        omega

theorem lineTokens_truncLoop (fuel : Nat) (s : List CmdChar) :
    lineTokens (truncLoop fuel s) <+: lineTokens s := by
  induction fuel generalizing s with
  | zero => exact List.prefix_refl _
  | succ fuel ih =>
      rw [truncLoop]
      split
      · exact List.prefix_refl _
      · next last hlast =>
          split
          · next hspace =>
              obtain ⟨c, t, hc, hs, -⟩ := split_at_space hspace
              refine (ih _).trans ?_
              conv_rhs => rw [hs]
              exact lineTokens_cut _ t hc
          · exact List.prefix_refl _

/-- A line of less than 65536 characters loses no token. -/
theorem lineTokens_truncSpace {line : List CmdChar} (h : line.length < 0x10000) :
    lineTokens (truncSpace line) = lineTokens line := by
  have hloop (fuel : Nat) (s : List CmdChar) (hs : s.length < 0x10000) :
      lineTokens (truncLoop fuel s) = lineTokens s := by
    induction fuel generalizing s with
    | zero => rfl
    | succ fuel ih =>
        rw [truncLoop, Nat.mod_eq_of_lt hs]
        split
        · rfl
        · next last hlast =>
            split
            · next hspace =>
                obtain ⟨c, t, hc, hcut, hlen⟩ := split_at_space hspace
                obtain rfl : t = [] := List.length_eq_zero_iff.mp (by omega)
                rw [ih _ (by rw [List.length_take]; omega)]
                conv_rhs => rw [hcut]
                exact (lineTokens_space _ hc).symm
            · rfl
  exact hloop _ line h

/-! ## Lines -/

/-- `ExecCmd` does with a line what it does with the tokens that `TruncSpace` leaves. -/
theorem execCmd_eq (pCmdTable : List CmdDescr) (answers : Nat → UInt16 × Nat) (keyword : Buf)
    (line : List CmdChar) : ∃ fuel r, execCmd pCmdTable answers keyword fuel line = some r ∧
      (r.events, r.s, r.lost) =
        codeTokens pCmdTable answers 0 retContinue (lineTokens (truncSpace line)) := by
  obtain ⟨r, hloop, hr⟩ := @cmdLoop_eq pCmdTable answers keyword
    ⟨truncSpace line, retContinue, 0, [], false, false⟩ _ (Nat.lt_succ_self _) rfl rfl rfl
  exact ⟨_, r, hloop, hr⟩

/-- More turns change nothing. -/
theorem cmdLoop_mono {fuel more : Nat} {r r' : CmdRun}
    (h : cmdLoop pCmdTable answers keyword fuel r = some r') (hle : fuel ≤ more) :
    cmdLoop pCmdTable answers keyword more r = some r' := by
  induction fuel generalizing r more with
  | zero => cases h
  | succ fuel ih =>
      obtain ⟨more, rfl⟩ := Nat.exists_eq_succ_of_ne_zero (Nat.zero_lt_of_lt hle).ne'
      rw [cmdLoop] at h ⊢
      split
      · next hstop => rwa [if_pos hstop] at h
      · next hgo =>
          rw [if_neg hgo] at h
          exact ih h (Nat.le_of_succ_le_succ hle)

theorem lineRight_iff_tokens {line : List CmdChar} :
    LineRight pCmdTable answers keyword line ↔
      codeTokens pCmdTable answers 0 retContinue (lineTokens (truncSpace line)) =
        specTokens pCmdTable answers 0 retContinue (lineTokens line) := by
  obtain ⟨fuel, r, hrun, hr⟩ := execCmd_eq pCmdTable answers keyword line
  constructor
  · rintro ⟨fuel', r', hrun', hr'⟩
    have hone := cmdLoop_mono hrun (le_max_left fuel fuel')
    have hother := cmdLoop_mono hrun' (le_max_right fuel fuel')
    rw [hone] at hother
    cases hother
    exact hr.symm.trans hr'
  · intro h
    exact ⟨fuel, r, hrun, hr.trans h⟩

/-- `ExecCmd` does what a line says exactly if the tokens it is to reach are fair and
`TruncSpace` leaves them. -/
theorem lineRight_iff {line : List CmdChar} :
    LineRight pCmdTable answers keyword line ↔ LineFair pCmdTable answers line := by
  rw [lineRight_iff_tokens]
  constructor
  · intro h
    obtain ⟨hfair, hkept⟩ := fair_of_codeTokens (lineTokens_truncLoop _ line) h
    exact ⟨hfair, hkept⟩
  · rintro ⟨hfair, hkept⟩
    rw [← hkept] at hfair
    rw [codeTokens_of_fair hfair, ← specTokens_reached, hkept, specTokens_reached]

end

/-- `ExecCmd` returns, and does what the line says, exactly if the line is fair; and
`GetNextToken` stays in the token's buffer exactly if the token is shorter. -/
theorem execCmd_right_iff (pCmdTable : List CmdDescr) (answers : Nat → UInt16 × Nat)
    (keyword : Buf) (line pStr : List CmdChar) (tokenLen : UInt16) (pToken : Buf) :
    (LineRight pCmdTable answers keyword line ↔ LineFair pCmdTable answers line) ∧
      (Stays (Touch.below tokenLen.toNat) (getNextToken pStr tokenLen) pToken ↔
        (firstToken pStr).length < tokenLen.toNat) :=
  ⟨lineRight_iff, stays_getNextToken pStr tokenLen pToken⟩

/-- A token as long as its buffer. -/
theorem token_overrun :
    ¬ ∀ (pCmdTable : List CmdDescr) (answers : Nat → UInt16 × Nat) (keyword : Buf)
        (line pStr : List CmdChar) (tokenLen : UInt16) (pToken : Buf), 1 ≤ tokenLen →
      LineRight pCmdTable answers keyword line ∧
        Stays (Touch.below tokenLen.toNat) (getNextToken pStr tokenLen) pToken := by
  intro h
  have hstays := (h [] (fun _ => (retOk, 0)) (fun _ => 0) [] [⟨65, by decide⟩] 1 (fun _ => 0)
    (by decide)).2
  exact absurd ((stays_getNextToken _ _ _).mp hstays) (by decide)

end VxWorks.Usb
