import ImportSurvey.Text.Quoted
/-!
# Options and operands

How the words of a command line are matched against the options and operands of a command. Options
have spellings with one dash and a letter or with two dashes and a word, and take a value or none;
operands follow in order. Matching yields the events in the order in which they take effect, the
words that fit nowhere, and, if the line is not well formed, what is wrong with it.
-/

namespace ImportSurvey.CommandLine

open Text

structure OptionSpec where
  name : String
  spellings : List String
  takesValue : Bool
deriving DecidableEq, Repr

/-- How many words an operand takes: one, at most one, or one and all that follow it. -/
inductive Arity
  | one
  | optional
  | rest
deriving DecidableEq, Repr

structure Operand where
  name : String
  arity : Arity
  required : Bool
deriving DecidableEq, Repr

structure Grammar where
  program : String
  options : List OptionSpec
  operands : List Operand

/-- Something that takes effect when the line is carried out. -/
inductive Event
  | option (spec : OptionSpec) (value : Option String)
  | operand (spec : Operand) (words : List String)
deriving Repr

/-! ## Words -/

/-- An option found in a word, with the text attached to it: behind an equals sign, or right behind
the letter. -/
structure OptionMatch where
  spec : OptionSpec
  spelling : List Char
  attached : Option (Bool × List Char)

/-- What a word can serve as. -/
inductive Role
  | plain
  | separator
  | unknownOption
  | option (m : OptionMatch)

abbrev Word := String × Role

def Grammar.option? (g : Grammar) (spelling : List Char) : Option OptionSpec :=
  g.options.find? fun o => o.spellings.any fun s => s.toList == spelling

def isDigits (cs : List Char) : Bool :=
  !cs.isEmpty && cs.all isDecimal

/-- A dash and a number, with or without a decimal point. -/
def isNegativeNumber (cs : List Char) : Bool :=
  match cs with
  | '-' :: body =>
    let body := if body.getLast? == some '\n' then body.dropLast else body
    isDigits body ||
      (match body.dropWhile isDecimal with
        | '.' :: fraction => isDigits fraction
        | _ => false)
  | _ => false

/-- A word that begins with a dash but is not known as it stands: an option with a text attached, a
number, or an option of somebody else. -/
def Grammar.dashedRole (g : Grammar) (cs : List Char) : Role :=
  let spelling := cs.takeWhile (· != '=')
  match cs.dropWhile (· != '='), g.option? spelling with
  | _ :: value, some spec => .option ⟨spec, spelling, some (true, value)⟩
  | _, _ =>
    match (if (cs.drop 1).head? == some '-' then none else g.option? (cs.take 2)) with
    | some spec => .option ⟨spec, cs.take 2, some (false, cs.drop 2)⟩
    | none => if isNegativeNumber cs || cs.contains ' ' then .plain else .unknownOption

def Grammar.role (g : Grammar) (word : String) : Role :=
  let cs := word.toList
  if cs.head? != some '-' then .plain
  else
    match g.option? cs with
    | some spec => .option ⟨spec, cs, none⟩
    | none => if cs.length = 1 then .plain else g.dashedRole cs

/-- The words of a line with their roles; behind a separator all are plain. -/
def Grammar.words (g : Grammar) : List String → List Word
  | [] => []
  | w :: ws =>
    if w = "--" then (w, .separator) :: ws.map (·, .plain) else (w, g.role w) :: g.words ws

namespace Role

def isOption : Role → Bool
  | option _ | unknownOption => true
  | _ => false

def isPlain : Role → Bool
  | plain => true
  | _ => false

def isSeparator : Role → Bool
  | separator => true
  | _ => false

end Role

/-! ## Operands -/

/-- The words that one operand takes from the front, and the rest. -/
def takeOperand? (arity : Arity) (ws : List Word) : Option (List Word × List Word) :=
  let lead := ws.takeWhile (·.2.isSeparator)
  let body := ws.dropWhile (·.2.isSeparator)
  match arity, body with
  | .one, w :: rest =>
    if w.2.isPlain then
      some (lead ++ w :: rest.takeWhile (·.2.isSeparator), rest.dropWhile (·.2.isSeparator))
    else none
  | .one, [] => none
  | .optional, w :: rest =>
    if w.2.isPlain then
      some (lead ++ w :: rest.takeWhile (·.2.isSeparator), rest.dropWhile (·.2.isSeparator))
    else some (lead, body)
  | .optional, [] => some (lead, [])
  | .rest, w :: _ => if w.2.isPlain then some (ws, []) else none
  | .rest, [] => none

/-- The texts of an operand's words, without the first separator unless it takes all that follow. -/
def operandTexts (arity : Arity) (ws : List Word) : List String :=
  match arity with
  | .rest => ws.map Prod.fst
  | _ => (ws.map Prod.fst).erase "--"

/-- Matches all of some operands from the front. -/
def takeOperands? : List Operand → List Word → Option (List Event × List Word)
  | [], ws => some ([], ws)
  | o :: os, ws => do
    let (taken, rest) ← takeOperand? o.arity ws
    let (events, rest) ← takeOperands? os rest
    return (.operand o (operandTexts o.arity taken) :: events, rest)

/-- What was matched from the front: events, the rest, and the operands still to come. -/
structure Taken where
  events : List Event
  rest : List Word
  operands : List Operand

/-- Matches as many operands as possible, of the first `n`. -/
def takeMost (operands : List Operand) (ws : List Word) : Nat → Taken
  | 0 => ⟨[], ws, operands⟩
  | n + 1 =>
    match takeOperands? (operands.take (n + 1)) ws with
    | some (events, rest) => ⟨events, rest, operands.drop (n + 1)⟩
    | none => takeMost operands ws n

/-! ## Options -/

def OptionSpec.label (o : OptionSpec) : String :=
  "/".intercalate o.spellings

/-- What a matched option amounts to: events, words that fit nowhere, and the rest. -/
structure OptionTaken where
  events : List Event
  extras : List String
  rest : List Word

def ignoredText (o : OptionSpec) (text : List Char) : String :=
  "argument " ++ o.label ++ ": ignored explicit argument " ++ quoted (String.ofList text)

/-- An option without attached text. -/
def takeBare (o : OptionSpec) (rest : List Word) : Except String OptionTaken :=
  if o.takesValue then
    match rest with
    | (value, .plain) :: rest => .ok ⟨[.option o (some value)], [], rest⟩
    | _ => .error ("argument " ++ o.label ++ ": expected one argument")
  else .ok ⟨[.option o none], [], rest⟩

/-- The same with an option in front. -/
def OptionTaken.behind (o : OptionSpec) (t : OptionTaken) : OptionTaken :=
  { t with events := .option o none :: t.events }

/-- Letters behind a dash and a letter, each of which may be an option of its own; `isShort` tells
whether the option they are attached to is spelled with one dash. -/
def takeAttached (g : Grammar) (rest : List Word) (o : OptionSpec) (isShort equals : Bool) :
    List Char → Except String OptionTaken
  | [] =>
    if o.takesValue then .ok ⟨[.option o (some "")], [], rest⟩ else .error (ignoredText o [])
  | c :: cs =>
    if o.takesValue then .ok ⟨[.option o (some (String.ofList (c :: cs)))], [], rest⟩
    else if !isShort || equals || c == '-' then .error (ignoredText o (c :: cs))
    else
      match g.option? ['-', c], cs with
      | none, _ => .ok ⟨[.option o none], [String.ofList ('-' :: c :: cs)], rest⟩
      | some next, [] => (takeBare next rest).map (·.behind o)
      | some next, d :: ds =>
        if d == '=' then (takeAttached g rest next true true ds).map (·.behind o)
        else (takeAttached g rest next true false (d :: ds)).map (·.behind o)

def takeOption (g : Grammar) (m : OptionMatch) (rest : List Word) : Except String OptionTaken :=
  match m.attached with
  | none => takeBare m.spec rest
  | some (equals, text) =>
    takeAttached g rest m.spec ((m.spelling.drop 1).head? != some '-') equals text

/-! ## Lines -/

/-- All that a line amounts to. What is wrong with it counts after the events have taken effect. -/
structure Matched where
  events : List Event
  extras : List String
  failure : Option String

def Matched.after (m : Matched) (events : List Event) (extras : List String) : Matched :=
  ⟨events ++ m.events, extras ++ m.extras, m.failure⟩

def missing? (operands : List Operand) : Option String :=
  match (operands.filter (·.required)).map (·.name) with
  | [] => none
  | names => some ("the following arguments are required: " ++ ", ".intercalate names)

theorem takeBare_length_le {o : OptionSpec} {rest : List Word} {t : OptionTaken}
    (h : takeBare o rest = .ok t) : t.rest.length ≤ rest.length := by
  unfold takeBare at h
  repeat' split at h
  all_goals simp only [Except.ok.injEq, reduceCtorEq] at h
  all_goals simp [← h]

theorem behind_length_le {o : OptionSpec} {n : Nat} {r : Except String OptionTaken}
    {t : OptionTaken} (hr : ∀ u, r = .ok u → u.rest.length ≤ n)
    (h : r.map (·.behind o) = .ok t) : t.rest.length ≤ n := by
  cases r with
  | error e => simp [Except.map] at h
  | ok u =>
    simp only [Except.map, Except.ok.injEq] at h
    rw [← h]
    exact hr u rfl

theorem takeAttached_length_le {g : Grammar} {rest : List Word} {o : OptionSpec}
    {isShort equals : Bool} {text : List Char} {t : OptionTaken}
    (h : takeAttached g rest o isShort equals text = .ok t) : t.rest.length ≤ rest.length := by
  fun_induction takeAttached g rest o isShort equals text generalizing t with
  | case1 => simp only [Except.ok.injEq] at h; simp [← h]
  | case2 => simp at h
  | case3 => simp only [Except.ok.injEq] at h; simp [← h]
  | case4 => simp at h
  | case5 => simp only [Except.ok.injEq] at h; simp [← h]
  | case6 => exact behind_length_le (fun _ => takeBare_length_le) h
  | case7 _ _ _ _ _ _ _ _ _ _ _ ih => exact behind_length_le (fun _ => ih) h
  | case8 _ _ _ _ _ _ _ _ _ _ _ ih => exact behind_length_le (fun _ => ih) h

theorem takeOption_length_le {g : Grammar} {m : OptionMatch} {rest : List Word} {t : OptionTaken}
    (h : takeOption g m rest = .ok t) : t.rest.length ≤ rest.length := by
  unfold takeOption at h
  split at h
  · exact takeBare_length_le h
  · exact takeAttached_length_le h

/-- Matches words against options and operands, turn by turn: operands as far as the words before
the next option allow, then the option. -/
def gather (g : Grammar) (operands : List Operand) (ws : List Word) : Matched :=
  let taken := takeMost operands ws operands.length
  match ws with
  | [] => ⟨taken.events, [], missing? taken.operands⟩
  | w :: rest =>
    match w.2 with
    | .option m =>
      match h : takeOption g m rest with
      | .error e => ⟨[], [], some e⟩
      | .ok t =>
        have := takeOption_length_le h
        (gather g operands t.rest).after t.events t.extras
    | .unknownOption => (gather g operands rest).after [] [w.1]
    | _ =>
      if !rest.any (·.2.isOption) then
        ⟨taken.events, taken.rest.map Prod.fst, missing? taken.operands⟩
      else if taken.rest.length < (w :: rest).length then
        (gather g taken.operands taken.rest).after taken.events []
      else
        have := (List.dropWhile_suffix (l := rest) (!·.2.isOption)).length_le
        (gather g taken.operands (rest.dropWhile (!·.2.isOption))).after taken.events
          (w.1 :: (rest.takeWhile (!·.2.isOption)).map Prod.fst)
termination_by ws.length
decreasing_by all_goals (simp only [List.length_cons] at *; omega)

/-- Matches a line against a command. -/
def Grammar.read (g : Grammar) (line : List String) : Matched :=
  gather g g.operands (g.words line)

end ImportSurvey.CommandLine
