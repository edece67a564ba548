import VibePoker.CS.Checked
import VibePoker.CS.Loop
import VibePoker.Game.State
import VibePoker.Net.Protocol
import Mathlib.Data.List.DropRight

/-!
# The human agent

The prompt of the human agent: lines are read until one of them is a command that is legal.
Text is a list of characters. The tables that Unicode has for lower case are an argument.

## Main definitions

* `Stdin` — what is left to be read, and its lines
* `parseInput` — the action that an input stands for
* `readAction` — the prompt loop

## Main results

* `isLegal_of_parseInput` — an accepted input is legal
* `Stdin.readLine_of_cons`, `Stdin.readLine_of_nil` — lines are read one by one
* `returns_readPass_iff` — when the prompt returns, and what
-/

namespace VibePoker.Agent

open VibePoker.CS VibePoker.Game VibePoker.Net

/-! ## Text -/

/-- `str::trim` -/
def trim (text : List Char) : List Char :=
  (text.dropWhile isWhitespace).rdropWhile isWhitespace

/-- `splitn(2, char::is_whitespace)` -/
def splitWhitespace (text : List Char) : List Char × Option (List Char) :=
  match text.span fun c => !isWhitespace c with
  | (first, _ :: rest) => (first, some rest)
  | (first, []) => (first, none)

/-- `u32::from_str` -/
def parseU32 (text : List Char) : Option ℕ :=
  let digits := match text with
    | '+' :: rest => rest
    | _ => text
  if digits ≠ [] ∧ digits.all Char.isDigit then
    asWord 32 (digits.foldl (fun value c => 10 * value + (c.toNat - '0'.toNat)) 0)
  else none

/-- The tables of Unicode that `str::to_lowercase` uses. -/
structure CaseTables where
  lower : Char → List Char
  cased : Char → Bool
  caseIgnorable : Char → Bool

/-- The part of the tables that is about ASCII. -/
def CaseTables.ascii : CaseTables where
  lower c := [c.toLower]
  cased := Char.isAlpha
  caseIgnorable c := c.toNat ∈ [0x27, 0x2e, 0x3a, 0x5e, 0x60]

/-- Is there a cased letter, behind characters that do not count? -/
def CaseTables.nextCased (tables : CaseTables) (text : List Char) : Bool :=
  (text.dropWhile tables.caseIgnorable).head?.any tables.cased

/-- `before` is what has been passed, the last character first. -/
def CaseTables.lowercaseFrom (tables : CaseTables) : List Char → List Char → List Char
  | _, [] => []
  | before, c :: after =>
    -- the only letter whose lower case depends on where it stands
    (if c = 'Σ' then
      [if tables.nextCased before && !tables.nextCased after then 'ς' else 'σ']
    else tables.lower c) ++ tables.lowercaseFrom (c :: before) after

/-- `str::to_lowercase` -/
def CaseTables.toLowercase (tables : CaseTables) (text : List Char) : List Char :=
  tables.lowercaseFrom [] text

/-! ## Commands -/

/-- The amount of a raise. -/
def parseRaise (arg : Option (List Char)) (la : LegalActions) : Except String Action :=
  if !la.canRaise then .error "raise is not legal here"
  else match arg with
    | none => .error ("usage: raise <amount>  (" ++ toString la.minRaise ++ " – " ++
        toString la.maxRaise ++ ")")
    | some amountStr =>
      match parseU32 amountStr with
      | none => .error ("'" ++ String.ofList amountStr ++ "' is not a valid chip amount")
      | some amount =>
        if amount < la.minRaise ∨ la.maxRaise < amount then
          .error ("raise amount must be between " ++ toString la.minRaise ++ " and " ++
            toString la.maxRaise ++ " (got " ++ toString amount ++ ")")
        else .ok (.raise amount)

/-- The action that an input stands for, or what to tell the player. -/
def parseInput (input : List Char) (la : LegalActions) : Except String Action :=
  let parts := splitWhitespace input
  let cmd := String.ofList (trim parts.1)
  let arg := parts.2.map trim
  if cmd ∈ ["f", "fold"] then .ok .fold
  else if cmd ∈ ["c", "check"] ∧ la.canCheck then .ok .check
  else if cmd ∈ ["c", "call"] ∧ la.canCall then .ok .call
  else if cmd ∈ ["c", "check", "call"] then .error "neither check nor call is legal here"
  else if cmd ∈ ["a", "allin", "all-in", "all_in"] ∧ 0 < la.allInAmount then .ok .allIn
  else if cmd ∈ ["a", "allin", "all-in", "all_in"] then
    .error "you have no chips to go all-in with"
  else if cmd ∈ ["r", "raise"] then parseRaise arg la
  else .error ("unknown command '" ++ cmd ++
    "' — try: fold, check, call, raise <amount>, allin")

section Commands

variable {la : LegalActions} {action : Action}

theorem isLegal_of_parseRaise {arg : Option (List Char)} (h : parseRaise arg la = .ok action) :
    la.isLegal action = true := by
  unfold parseRaise at h
  split at h
  case isTrue => cases h
  case isFalse hraise =>
    have hraise : la.canRaise = true := by simpa using hraise
    split at h
    case h_1 => cases h
    case h_2 amountStr =>
      split at h
      case h_1 => cases h
      case h_2 amount _ =>
        split at h
        case isTrue => cases h
        case isFalse hbounds =>
          obtain rfl := Except.ok.inj h
          obtain ⟨hmin, hmax⟩ := not_or.mp hbounds
          simp [LegalActions.isLegal, hraise, Nat.not_lt.mp hmin, Nat.not_lt.mp hmax]

/-- An accepted input is legal. -/
theorem isLegal_of_parseInput {input : List Char} (h : parseInput input la = .ok action) :
    la.isLegal action = true := by
  simp only [parseInput] at h
  split_ifs at h with _ hcheck hcall _ hallIn
  · obtain rfl := Except.ok.inj h
    rfl
  · obtain rfl := Except.ok.inj h
    exact hcheck.2
  · obtain rfl := Except.ok.inj h
    exact hcall.2
  · obtain rfl := Except.ok.inj h
    exact decide_eq_true hallIn.2
  · exact isLegal_of_parseRaise h

end Commands

/-! ## Reading lines -/

/-- What is left to be read. `fails` tells whether reading on behind the text is an error, and
not the end of the input. -/
structure Stdin where
  text : List Char
  fails : Bool
deriving DecidableEq, Repr

/-- The text up to the first line break, and what is behind it. -/
def splitLine : List Char → List Char × List Char
  | [] => ([], [])
  | c :: text =>
    if c = '\n' then (['\n'], text)
    else
      let (line, rest) := splitLine text
      (c :: line, rest)

/-- `Stdin::read_line`; `none` is an error. At the end of the input a line is empty. -/
def Stdin.readLine (stdin : Stdin) : Option (List Char × Stdin) :=
  let (line, rest) := splitLine stdin.text
  if stdin.fails ∧ '\n' ∉ line then none else some (line, { stdin with text := rest })

/-- The lines of a text, with their line breaks. One that has none counts if `last`. -/
def linesOf (last : Bool) : List Char → List (List Char)
  | [] => []
  | c :: text =>
    if c = '\n' then ['\n'] :: linesOf last text
    else match linesOf last text with
      | [] => if last then [[c]] else []
      | line :: lines => (c :: line) :: lines

/-- The lines that can be read. -/
def Stdin.lines (stdin : Stdin) : List (List Char) := linesOf (!stdin.fails) stdin.text

/-- Text is read line by line. -/
theorem linesOf_eq (last : Bool) (text : List Char) : linesOf last text =
    if text = [] ∨ (last = false ∧ '\n' ∉ (splitLine text).1) then []
    else (splitLine text).1 :: linesOf last (splitLine text).2 := by
  induction text with
  | nil => rfl
  | cons c text ih =>
    by_cases hbreak : c = '\n'
    · subst hbreak
      simp [linesOf, splitLine]
    · have hne : '\n' ≠ c := Ne.symm hbreak
      simp only [linesOf, splitLine, if_neg hbreak, ih]
      by_cases hempty : text = []
      · subst hempty
        cases last <;> simp [linesOf, splitLine, hne]
      · cases last with
        | true => simp [hempty]
        | false =>
          by_cases hmem : '\n' ∈ (splitLine text).1
          · simp [hempty, hmem]
          · simp [hmem, hne]

theorem Stdin.readLine_of_cons {stdin : Stdin} {line : List Char} {later : List (List Char)}
    (h : stdin.lines = line :: later) :
    ∃ rest, stdin.readLine = some (line, rest) ∧ rest.fails = stdin.fails ∧ rest.lines = later := by
  rw [lines, linesOf_eq] at h
  split at h
  case isTrue => cases h
  case isFalse hline =>
    obtain ⟨rfl, rfl⟩ := List.cons.inj h
    refine ⟨{ stdin with text := (splitLine stdin.text).2 }, ?_, rfl, rfl⟩
    have hreads : ¬ (stdin.fails ∧ '\n' ∉ (splitLine stdin.text).1) := by
      simpa using (not_or.mp hline).2
    rw [readLine]
    simp only [if_neg hreads]

/-- Behind the lines, reading is an error or reports an empty line. -/
theorem Stdin.readLine_of_nil {stdin : Stdin} (h : stdin.lines = []) :
    stdin.readLine = if stdin.fails then none else some ([], stdin) := by
  rw [lines, linesOf_eq] at h
  split at h
  case isFalse => cases h
  case isTrue hend =>
    obtain ⟨text, fails⟩ := stdin
    rcases hend with hempty | ⟨hfails, hbreak⟩
    · obtain rfl : text = [] := hempty
      cases fails <;> rfl
    · have hfails : fails = true := by simpa using hfails
      simp [readLine, hfails, hbreak]

/-! ## The prompt -/

/-- The action that a line stands for. -/
def parseLine (tables : CaseTables) (la : LegalActions) (line : List Char) :
    Except String Action :=
  parseInput (tables.toLowercase (trim line)) la

/-- One pass of the prompt. -/
def readPass (tables : CaseTables) (la : LegalActions) (stdin : Stdin) : Stdin ⊕ Action :=
  match stdin.readLine with
  | none => .inr .fold
  | some (line, rest) =>
    match parseLine tables la line with
    | .ok action => .inr action
    -- the player is told, and prompted again
    | .error _ => .inl rest

/-- The prompt loop. -/
def readAction (tables : CaseTables) (la : LegalActions) : ℕ → Stdin → Option Action :=
  loop (readPass tables la)

/-- The first command among some lines. -/
def firstCommand (tables : CaseTables) (la : LegalActions) (lines : List (List Char)) :
    Option Action :=
  lines.findSome? fun line => (parseLine tables la line).toOption

section Prompt

variable {tables : CaseTables} {la : LegalActions}

/-- The empty line is no command. -/
theorem parseLine_nil : parseLine tables la [] =
    .error "unknown command '' — try: fold, check, call, raise <amount>, allin" := by
  have hcmd : String.ofList (trim (splitWhitespace []).1) = "" := rfl
  have hline : tables.toLowercase (trim []) = [] := rfl
  rw [parseLine, hline, parseInput, hcmd]
  simp

/-- A command that is found is legal. -/
theorem isLegal_of_firstCommand {lines : List (List Char)} {action : Action}
    (h : firstCommand tables la lines = some action) : la.isLegal action = true := by
  obtain ⟨line, -, hline⟩ := List.exists_of_findSome?_eq_some h
  cases hparse : parseLine tables la line with
  | error msg =>
    rw [hparse] at hline
    cases hline
  | ok found =>
    rw [hparse] at hline
    obtain rfl := Option.some.inj hline
    exact isLegal_of_parseInput hparse

/-- The prompt returns the first command, or folds if reading fails before one. At the end of the
input it does not return. -/
theorem returns_readPass_iff {stdin : Stdin} {action : Action} :
    Returns (readPass tables la) stdin action ↔
      match firstCommand tables la stdin.lines with
      | some command => action = command
      | none => stdin.fails = true ∧ action = .fold := by
  induction hlines : stdin.lines generalizing stdin with
  | nil =>
    have hread := Stdin.readLine_of_nil hlines
    cases hfails : stdin.fails with
    | true =>
      have hpass : readPass tables la stdin = .inr .fold := by
        rw [readPass, hread, hfails]
        rfl
      rw [returns_iff_of_break hpass]
      simp [firstCommand]
    | false =>
      have hpass : readPass tables la stdin = .inl stdin := by
        rw [readPass, hread, hfails]
        simp [parseLine_nil]
      -- at the end of an input that does not fail, every read leaves the loop where it was
      have hnever : ¬ Returns (readPass tables la) stdin action :=
        not_returns (· = stdin) (fun s hs => ⟨stdin, hs ▸ hpass, rfl⟩) rfl
      simp [firstCommand, hnever]
  | cons line later ih =>
    obtain ⟨rest, hread, hfails, hlater⟩ := Stdin.readLine_of_cons hlines
    cases hparse : parseLine tables la line with
    | ok command =>
      have hpass : readPass tables la stdin = .inr command := by
        rw [readPass, hread]
        simp [hparse]
      rw [returns_iff_of_break hpass]
      simp [firstCommand, hparse, Except.toOption]
    | error msg =>
      have hpass : readPass tables la stdin = .inl rest := by
        rw [readPass, hread]
        simp [hparse]
      -- a refused line is dropped and the loop goes on, so the rest of the input decides
      rw [returns_iff_of_continue hpass, ih hlater, ← hfails]
      simp [firstCommand, hparse, Except.toOption]

end Prompt

end VibePoker.Agent
