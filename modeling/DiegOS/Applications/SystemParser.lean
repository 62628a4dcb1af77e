import DiegOS.Lib.WhileLoops
import DiegOS.Libc.Tokens

/-!
# The command parser

`system_parser` with the buffer that `strtok_r` cuts and the nodes of a command tree.  A
node is given by what it points to, so its commands may lead to any other node.  What is printed
and called is listed in order; a character read behind a string is `none`.

Main results:

- Theorem `systemParser_eq`: `system_parser` walks down the tree by the tokens of the line.
- Theorem `mem_calls_iff`: the walk calls the function of a leaf exactly if the tokens start
  with the names on a path to it.
- Theorem `command_dispatch`: both together.
-/

namespace DiegOS.Applications.SystemParser

open Lib Libc

/-! ## The code -/

def PARSER_FUNC : UInt32 := 16

/-- A `struct alt_command` of a tree with nodes `ν` and functions `φ`. -/
structure AltCommand (ν φ : Type) where
  flags : UInt32
  item : List UInt8
  help : List UInt8
  data : Option φ
  next : Option ν

/-- The `struct alternates` at every node. -/
abbrev Alternates (ν φ : Type) := ν → List (AltCommand ν φ)

/-- What `system_parser` does: a line of help, the message of a syntax error, or a call. -/
inductive Effect (φ : Type) where
  | help (item help : List UInt8)
  | syntaxError
  | call (fn : φ)
deriving DecidableEq

/-- The variables of `system_parser`. -/
structure Walk (ν : Type) where
  token : Option Nat
  saveptr : Option Nat
  buffer2 : List UInt8
  cmdchain : Option ν

section Code

variable {ν φ : Type}

def systemParserSearch :
    List (AltCommand ν φ) → List UInt8 → Option (Option (AltCommand ν φ))
  | [], _ => some none
  | cursor :: commands, token =>
    (strcmp token (cursor.item ++ [0])).bind fun c =>
      if c = 0 then some (some cursor) else systemParserSearch commands token

def systemParserPrintHelp (commands : List (AltCommand ν φ)) (index : UInt32) : List (Effect φ) :=
  if index = -1 then commands.map fun cursor => .help cursor.item cursor.help
  else (commands[index.toNat]?).toList.map fun cursor => .help cursor.item cursor.help

/-- What is called for a command without a next node. -/
def AltCommand.func (cmd : AltCommand ν φ) : Option φ :=
  if cmd.flags &&& PARSER_FUNC ≠ 0 then cmd.data else none

/-- A round of the loop of `system_parser`. -/
def round (tree : Alternates ν φ) (s : Walk ν) : Walk ν ⊕ Option (List (Effect φ)) :=
  match s.token, s.cmdchain with
  | some token, some a =>
    match s.buffer2[token]? with
    | none => .inr none
    | some c =>
      if c = 0x09 then .inr (some (systemParserPrintHelp (tree a) (-1)))
      else
        match systemParserSearch (tree a) (s.buffer2.drop token) with
        | none => .inr none
        | some none => .inr (some (systemParserPrintHelp (tree a) (-1) ++ [.syntaxError]))
        | some (some cmd) =>
          match cmd.next with
          | some b =>
            match strtokR s.buffer2 none [0x20, 0] s.saveptr with
            | none => .inr none
            | some (token, saveptr, buffer2) => .inl ⟨token, saveptr, buffer2, some b⟩
          | none => .inr (some (cmd.func.toList.map .call))
  | _, _ => .inr (some [])

/-- `system_parser` from the copy of the line on, for at most so many rounds. -/
def parseCopy (tree : Alternates ν φ) (systemRoot : Option ν) (rounds : Nat)
    (buffer2 : List UInt8) : Option (List (Effect φ)) :=
  (strtokR buffer2 (some 0) [0x20, 0] none).bind fun s =>
    if s.1 = none then some []
    else (runFor (round tree) rounds ⟨s.1, s.2.1, s.2.2, systemRoot⟩).join

/-- `system_parser`, for at most so many rounds. -/
def systemParser (tree : Alternates ν φ) (systemRoot : Option ν) (rounds : Nat)
    (buffer : Option (List UInt8)) (bufsize : UInt32) : Option (List (Effect φ)) :=
  match buffer with
  | none => some []
  | some buffer =>
    if bufsize = 0 then some []
    else (strncpy buffer 128).bind (parseCopy tree systemRoot rounds)

/-! ## The walk down the tree -/

/-- What is done with the tokens of a line, from a node on. -/
def dispatch (tree : Alternates ν φ) : ν → List (List UInt8) → List (Effect φ)
  | _, [] => []
  | a, w :: ws =>
    if w.head? = some 0x09 then systemParserPrintHelp (tree a) (-1)
    else
      match (tree a).find? fun cmd => cmd.item = w with
      | none => systemParserPrintHelp (tree a) (-1) ++ [.syntaxError]
      | some cmd =>
        match cmd.next with
        | some b => dispatch tree b ws
        | none => cmd.func.toList.map .call

/-- The functions that are called. -/
def calls (effects : List (Effect φ)) : List φ :=
  effects.filterMap fun
    | .call fn => some fn
    | _ => none

/-- The names on a path from a node to a leaf. -/
inductive Path (tree : Alternates ν φ) : ν → List (List UInt8) → AltCommand ν φ → Prop
  | leaf {a : ν} {cmd : AltCommand ν φ} (hmem : cmd ∈ tree a) (hnext : cmd.next = none) :
      Path tree a [cmd.item] cmd
  | inner {a b : ν} {cmd leaf : AltCommand ν φ} {names : List (List UInt8)} (hmem : cmd ∈ tree a)
      (hnext : cmd.next = some b) (hpath : Path tree b names leaf) :
      Path tree a (cmd.item :: names) leaf

/-- The items of a node have different names, which are strings without blanks that do not start
with a tab. -/
structure WellFormed (tree : Alternates ν φ) : Prop where
  distinct : ∀ a, ((tree a).map AltCommand.item).Nodup
  terminated : ∀ a, ∀ cmd ∈ tree a, 0 ∉ cmd.item
  blanks : ∀ a, ∀ cmd ∈ tree a, 0x20 ∉ cmd.item
  tab : ∀ a, ∀ cmd ∈ tree a, cmd.item.head? ≠ some 0x09

end Code

section Dispatch

variable {ν φ : Type} {tree : Alternates ν φ} {a : ν} {w line : List UInt8}
  {ws names : List (List UInt8)} {fn : φ} {leaf : AltCommand ν φ}

lemma systemParserSearch_eq (hw : 0 ∉ w) (rest : List UInt8)
    {commands : List (AltCommand ν φ)} (hitems : ∀ cmd ∈ commands, 0 ∉ cmd.item) :
    systemParserSearch commands (w ++ 0 :: rest) =
      some (commands.find? fun cmd => cmd.item = w) := by
  induction commands with
  | nil => rfl
  | cons cursor commands ih =>
    obtain ⟨i, hi, hzero⟩ := strcmp_eq_zero hw (hitems cursor (.head _)) rest []
    rw [systemParserSearch, hi, Option.bind_some, List.find?_cons]
    by_cases heq : cursor.item = w
    · rw [if_pos (hzero.mpr heq.symm), decide_eq_true heq]
    · rw [if_neg (hzero.not.mpr (Ne.symm heq)), decide_eq_false heq,
        ih fun cmd hcmd => hitems cmd (.tail _ hcmd)]

/-- A round with a token either leaves the loop with what the walk does there, or goes down the
tree with the next token. -/
lemma round_cases (hitems : ∀ a, ∀ cmd ∈ tree a, 0 ∉ cmd.item) {s : Walk ν} {i : Nat}
    (htoken : s.token = some i) (hchain : s.cmdchain = some a) (hword : StringAt s.buffer2 i w)
    (hne : w ≠ []) (hzero : 0 ∉ w) (hleft : Left [0x20] s.buffer2 s.saveptr ws) :
    (∃ effects, round tree s = .inr (some effects) ∧ dispatch tree a (w :: ws) = effects) ∨
      ∃ b token saveptr buffer2, round tree s = .inl ⟨token, saveptr, buffer2, some b⟩ ∧
        dispatch tree a (w :: ws) = dispatch tree b ws ∧
          Token [0x20] (some (token, saveptr, buffer2)) ws := by
  obtain ⟨rest, hrest⟩ := hword
  have hhead : s.buffer2[i]? = w.head? := by
    rw [← List.head?_drop, hrest]
    cases w with
    | nil => exact absurd rfl hne
    | cons c w => rfl
  have hsearch := systemParserSearch_eq hzero rest (hitems a)
  rw [← hrest] at hsearch
  cases w with
  | nil => exact absurd rfl hne
  | cons c w =>
    rw [round, htoken, hchain]
    dsimp only
    rw [hhead, dispatch, List.head?_cons]
    dsimp only
    by_cases htab : c = 0x09
    · rw [if_pos htab, if_pos (congrArg some htab)]
      exact .inl ⟨_, rfl, rfl⟩
    · rw [if_neg htab, if_neg fun h => htab (Option.some.inj h), hsearch]
      cases hfind : (tree a).find? fun cmd => cmd.item = c :: w with
      | none => exact .inl ⟨_, rfl, rfl⟩
      | some cmd =>
        dsimp only
        cases hnext : cmd.next with
        | none => exact .inl ⟨_, rfl, rfl⟩
        | some b =>
          have hcall := strtokR_eq (s := none) (by decide) hleft
          have hct : ([0x20] : List UInt8) ++ [0] = [0x20, 0] := rfl
          rw [hct] at hcall
          cases hresult : strtokR s.buffer2 none [0x20, 0] s.saveptr with
          | none =>
            rw [hresult] at hcall
            cases hcall
          | some t =>
            rw [hresult] at hcall
            exact .inr ⟨b, t.1, t.2.1, t.2.2, rfl, rfl, hcall⟩

/-- The loop with a token and the tokens that are left behind it. -/
lemma runFor_round (hitems : ∀ a, ∀ cmd ∈ tree a, 0 ∉ cmd.item) {i : Nat}
    {saveptr : Option Nat} {buffer2 : List UInt8} (hword : StringAt buffer2 i w)
    (hne : w ≠ []) (hzero : 0 ∉ w) (hleft : Left [0x20] buffer2 saveptr ws) {n : Nat}
    (hn : ws.length + 1 < n) :
    runFor (round tree) n ⟨some i, saveptr, buffer2, some a⟩ =
      some (some (dispatch tree a (w :: ws))) := by
  induction ws generalizing i saveptr buffer2 a w n with
  | nil =>
    obtain ⟨n, rfl⟩ : ∃ k, n = k + 2 := ⟨n - 2, by omega⟩
    rcases round_cases hitems (s := ⟨some i, saveptr, buffer2, some a⟩) rfl rfl hword hne hzero
      hleft with ⟨effects, hround, hdispatch⟩ | ⟨b, token, saveptr, buffer2, hround, hdispatch,
        htoken⟩
    · rw [runFor, hround, hdispatch]
    · cases htoken
      rw [runFor, hround, hdispatch]
      rfl
  | cons w' ws ih =>
    obtain ⟨n, rfl⟩ : ∃ k, n = k + 1 := ⟨n - 1, by omega⟩
    rw [List.length_cons] at hn
    rcases round_cases hitems (s := ⟨some i, saveptr, buffer2, some a⟩) rfl rfl hword hne hzero
      hleft with ⟨effects, hround, hdispatch⟩ | ⟨b, token, saveptr, buffer2, hround, hdispatch,
        htoken⟩
    · rw [runFor, hround, hdispatch]
    · cases htoken with
      | found hword hne hzero hleft =>
        rw [runFor, hround, hdispatch]
        exact ih hword hne hzero hleft (by omega)

lemma length_tokens_le (set text : List UInt8) : (tokens set text).length ≤ text.length := by
  generalize hn : text.length = n
  induction n using Nat.strongRecOn generalizing text with
  | ind n ih =>
    obtain ⟨sp, w, tail, rfl, hsp, hw, hempty, htail⟩ := exists_token set text
    simp only [List.length_append] at hn
    rw [tokens_append_left hsp]
    by_cases hne : w = []
    · obtain rfl := hempty hne
      subst hne
      exact Nat.zero_le n
    · have hpos := List.length_pos_of_ne_nil hne
      cases tail with
      | nil =>
        rw [List.append_nil, tokens_word hne hw, List.length_singleton]
        omega
      | cons d tail =>
        rw [List.length_cons] at hn
        have hrest := ih tail.length (by omega) tail rfl
        rw [tokens_word_cons hne hw (htail d tail rfl), List.length_cons]
        omega

/-- `system_parser` on any buffer that holds the line walks down the tree by its tokens. -/
lemma parseCopy_eq (hitems : ∀ a, ∀ cmd ∈ tree a, 0 ∉ cmd.item) (hline : 0 ∉ line)
    (rest : List UInt8) {rounds : Nat} (hrounds : line.length < rounds) :
    parseCopy tree (some a) rounds (line ++ 0 :: rest) =
      some (dispatch tree a (tokens [0x20] line)) := by
  have hblank : (0 : UInt8) ∉ [(0x20 : UInt8)] := by decide
  have hleft : Left [0x20] ([] ++ (line ++ 0 :: rest)) ((some 0).or none) (tokens [0x20] line) :=
    Left.text [] rest hline
  have hcall := strtokR_eq hblank hleft
  have hlen := length_tokens_le [0x20] line
  rw [List.nil_append, show ([0x20] : List UInt8) ++ [0] = [0x20, 0] from rfl] at hcall
  rw [parseCopy]
  generalize tokens [0x20] line = ws at hcall hlen
  generalize strtokR (line ++ 0 :: rest) (some 0) [0x20, 0] none = result at hcall
  cases hcall with
  | none buffer => rfl
  | found hword hne hzero hleft =>
    rw [List.length_cons] at hlen
    rw [Option.bind_some, if_neg (Option.some_ne_none _),
      runFor_round hitems hword hne hzero hleft (by omega)]
    rfl

lemma calls_append (effects effects' : List (Effect φ)) :
    calls (effects ++ effects') = calls effects ++ calls effects' :=
  List.filterMap_append

/-- Help calls nothing. -/
lemma calls_printHelp (commands : List (AltCommand ν φ)) (index : UInt32) :
    calls (systemParserPrintHelp commands index : List (Effect φ)) = [] := by
  have hlines : ∀ l : List (AltCommand ν φ),
      calls (l.map fun cursor => (.help cursor.item cursor.help : Effect φ)) = [] := by
    intro l
    induction l with
    | nil => rfl
    | cons cursor l ih => exact ih
  rw [systemParserPrintHelp]
  split
  · exact hlines commands
  · exact hlines _

lemma calls_call (fn : Option φ) : calls (fn.toList.map .call) = fn.toList := by
  cases fn <;> rfl

/-- What a token calls, and where the walk goes on. -/
lemma calls_dispatch_cons (tree : Alternates ν φ) (a : ν) (w : List UInt8)
    (ws : List (List UInt8)) :
    calls (dispatch tree a (w :: ws)) = [] ∨
      ∃ cmd ∈ tree a, cmd.item = w ∧
        ((cmd.next = none ∧ calls (dispatch tree a (w :: ws)) = cmd.func.toList) ∨
          ∃ b, cmd.next = some b ∧ dispatch tree a (w :: ws) = dispatch tree b ws) := by
  rw [dispatch]
  split
  · exact .inl (calls_printHelp _ _)
  · split
    · exact .inl (by rw [calls_append, calls_printHelp]; rfl)
    · next cmd hfind =>
        have hname := List.find?_some hfind
        refine .inr ⟨cmd, List.mem_of_find?_eq_some hfind, of_decide_eq_true hname, ?_⟩
        · split
          · next b hnext => exact .inr ⟨b, hnext, rfl⟩
          · next hnext => exact .inl ⟨hnext, calls_call _⟩

/-- A line calls at most one function. -/
lemma length_calls_le (tree : Alternates ν φ) (a : ν) (ws : List (List UInt8)) :
    (calls (dispatch tree a ws)).length ≤ 1 := by
  induction ws generalizing a with
  | nil => exact Nat.zero_le 1
  | cons w ws ih =>
    rcases calls_dispatch_cons tree a w ws with hnone | ⟨cmd, -, -, hleaf | ⟨b, -, hinner⟩⟩
    · rw [hnone]
      exact Nat.zero_le 1
    · rw [hleaf.2]
      cases cmd.func with
      | none => exact Nat.zero_le 1
      | some fn => exact Nat.le_refl 1
    · rw [hinner]
      exact ih b

/-- A function that is called is that of a leaf to which the tokens lead. -/
lemma exists_path (h : fn ∈ calls (dispatch tree a ws)) :
    ∃ names leaf rest, Path tree a names leaf ∧ leaf.func = some fn ∧ ws = names ++ rest := by
  induction ws generalizing a with
  | nil => cases h
  | cons w ws ih =>
    rcases calls_dispatch_cons tree a w ws with
      hnone | ⟨cmd, hmem, rfl, ⟨hnext, hleaf⟩ | ⟨b, hnext, hinner⟩⟩
    · rw [hnone] at h
      cases h
    · rw [hleaf] at h
      exact ⟨[cmd.item], cmd, ws, .leaf hmem hnext, Option.mem_toList.mp h, rfl⟩
    · rw [hinner] at h
      obtain ⟨names, leaf, rest, hpath, hfunc, rfl⟩ := ih h
      exact ⟨cmd.item :: names, leaf, rest, .inner hmem hnext hpath, hfunc, rfl⟩

section WellFormed

variable (hwf : WellFormed tree)
include hwf

/-- The search finds the item of a node by its name. -/
lemma find_item {cmd : AltCommand ν φ} (hmem : cmd ∈ tree a) :
    ((tree a).find? fun c => c.item = cmd.item) = some cmd := by
  cases hfind : (tree a).find? fun c => c.item = cmd.item with
  | none => exact absurd (decide_eq_true rfl) (List.find?_eq_none.mp hfind cmd hmem)
  | some found =>
    have hname := List.find?_some hfind
    rw [List.inj_on_of_nodup_map (hwf.distinct a) (List.mem_of_find?_eq_some hfind) hmem
      (of_decide_eq_true hname)]

lemma dispatch_item {cmd : AltCommand ν φ} (hmem : cmd ∈ tree a) (ws : List (List UInt8)) :
    dispatch tree a (cmd.item :: ws) =
      match cmd.next with
      | some b => dispatch tree b ws
      | none => cmd.func.toList.map .call := by
  rw [dispatch, if_neg (hwf.tab a cmd hmem), find_item hwf hmem]

/-- Tokens that lead to a leaf call its function. -/
lemma calls_of_path (hpath : Path tree a names leaf) (rest : List (List UInt8)) :
    calls (dispatch tree a (names ++ rest)) = leaf.func.toList := by
  induction hpath with
  | leaf hmem hnext =>
    rw [List.cons_append, dispatch_item hwf hmem, hnext]
    exact calls_call _
  | inner hmem hnext _ ih =>
    rw [List.cons_append, dispatch_item hwf hmem, hnext]
    exact ih

/-- The walk calls the function of a leaf exactly if the tokens start with the names on a path to
it. -/
theorem mem_calls_iff : fn ∈ calls (dispatch tree a ws) ↔
    ∃ names leaf rest, Path tree a names leaf ∧ leaf.func = some fn ∧ ws = names ++ rest := by
  constructor
  · exact exists_path
  · rintro ⟨names, leaf, rest, hpath, hfunc, rfl⟩
    rw [calls_of_path hwf hpath, hfunc]
    exact List.mem_singleton_self fn

end WellFormed

/-- `system_parser` walks down the tree by the tokens of the line. -/
theorem systemParser_eq (hitems : ∀ a, ∀ cmd ∈ tree a, 0 ∉ cmd.item) (hline : 0 ∉ line)
    (hlen : line.length < 128) {bufsize : UInt32} (hsize : bufsize = 0 → line = [])
    (rest : List UInt8) {rounds : Nat} (hrounds : line.length < rounds) :
    systemParser tree (some a) rounds (some (line ++ 0 :: rest)) bufsize =
      some (dispatch tree a (tokens [0x20] line)) := by
  rw [systemParser]
  by_cases hzero : bufsize = 0
  · rw [if_pos hzero, hsize hzero]
    rfl
  · rw [if_neg hzero, strncpy_eq hline rest hlen, Option.bind_some,
      parseCopy_eq hitems hline _ hrounds]

/-- For a line of less than 128 characters `system_parser` comes to an end and reads nothing
behind the copy of the line; it calls at most one function, and that of a leaf exactly if the
first tokens of the line are the names on a path from the root to it. -/
theorem command_dispatch (hwf : WellFormed tree) (root : ν) (hline : 0 ∉ line)
    (hlen : line.length < 128) {bufsize : UInt32} (hsize : bufsize = 0 → line = []) :
    ∃ effects : List (Effect φ),
      (∀ rest rounds, line.length < rounds →
        systemParser tree (some root) rounds (some (line ++ 0 :: rest)) bufsize = some effects) ∧
      (∀ rounds, line.length < rounds →
        parseCopy tree (some root) rounds (line ++ [0]) = some effects) ∧
      (calls effects).length ≤ 1 ∧
      ∀ fn, fn ∈ calls effects ↔ ∃ names leaf rest, Path tree root names leaf ∧
        leaf.func = some fn ∧ tokens [0x20] line = names ++ rest := by
  refine ⟨dispatch tree root (tokens [0x20] line), ?_, ?_, length_calls_le _ _ _, ?_⟩
  · exact fun rest rounds => systemParser_eq hwf.terminated hline hlen hsize rest
  · exact fun rounds => parseCopy_eq hwf.terminated hline []
  · exact fun fn => mem_calls_iff hwf

end Dispatch

/-! ## The commands of the console -/

/-- The nodes of the tree of `console.c`. -/
inductive ConsoleNode where
  | root
  | show_

/-- The functions of the commands. -/
inductive Func where
  | netif_dump | threads_dump | sched_dump | mutexes_dump | barriers_dump | diegos_dump
  | print_time | console_logout
deriving DecidableEq, Repr

/-- The bytes of a name. -/
def item (name : String) : List UInt8 := name.toList.map fun c => UInt8.ofNat c.toNat

def altCommandFunc0 (name description : String) (func : Func) : AltCommand ConsoleNode Func :=
  ⟨PARSER_FUNC, item name, item description, some func, none⟩

/-- `command_root` and `command_show` -/
def consoleTree : Alternates ConsoleNode Func
  | .show_ =>
    [altCommandFunc0 "interfaces" "network interfaces" .netif_dump,
      altCommandFunc0 "threads" "system threads" .threads_dump,
      altCommandFunc0 "scheduler" "scheduler" .sched_dump,
      altCommandFunc0 "mutexes" "system mutexes" .mutexes_dump,
      altCommandFunc0 "barriers" "system barriers" .barriers_dump,
      altCommandFunc0 "system" "DiegOS memory layout" .diegos_dump,
      altCommandFunc0 "date" "date and time" .print_time]
  | .root =>
    [⟨0, item "show", item "show system informations", none, some .show_⟩,
      ⟨0, item "help", item "help !!!", none, none⟩,
      altCommandFunc0 "logout" "Exit this session" .console_logout]

lemma consoleTree_wellFormed : WellFormed consoleTree where
  distinct a := by cases a <;> decide
  terminated a := by cases a <;> decide
  blanks a := by cases a <;> decide
  tab a := by cases a <;> decide

/-- A line with more blanks than it needs calls one function. -/
theorem command_dispatch_show :
    ∃ effects : List (Effect Func),
      (∀ rest rounds, 15 < rounds → systemParser consoleTree (some .root) rounds
        (some (item "  show threads " ++ 0 :: rest)) 16 = some effects) ∧
      .threads_dump ∈ calls effects := by
  have hline : 0 ∉ item "  show threads " := by decide
  have hsize : (16 : UInt32) = 0 → item "  show threads " = [] := by decide
  obtain ⟨effects, hparser, -, -, hcalls⟩ :=
    command_dispatch consoleTree_wellFormed .root hline (by decide) hsize
  have hshow : (⟨0, item "show", item "show system informations", none,
      some .show_⟩ : AltCommand ConsoleNode Func) ∈ consoleTree .root := by
    simp [consoleTree]
  have hthreads : altCommandFunc0 "threads" "system threads" .threads_dump ∈
      consoleTree .show_ := by
    simp [consoleTree]
  refine ⟨effects, hparser, (hcalls .threads_dump).mpr ?_⟩
  exact ⟨[item "show", item "threads"], _, [],
    .inner hshow rfl (.leaf hthreads rfl), rfl, by decide⟩

end DiegOS.Applications.SystemParser
