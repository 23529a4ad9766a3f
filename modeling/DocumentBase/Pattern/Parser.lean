import DocumentBase.Number.Reading
import DocumentBase.Pattern
import DocumentBase.Text.Blank
import DocumentBase.Number.Width

/-!
# Reading patterns

A pattern text is read from left to right with a stack of the groups that are open.  Every
step takes at least one character, so the length of the text bounds the number of steps.  A
text that is no pattern is refused without a reason.
-/

namespace DocumentBase

namespace Pattern

/-- Switches that stay on until the end of the group in which they were set. -/
structure Flags where
  ignoreCase : Bool := false
  multiLine : Bool := false
  dotAll : Bool := false
  anyLineEnd : Bool := false
  /-- Blanks and comments in the pattern text mean nothing. -/
  verbose : Bool := false
deriving DecidableEq, Repr

/-- A group that is open: what stood before it, and the flags to return to. -/
structure OpenGroup where
  capturing : Bool
  outside : Flags
  choices : List Pattern
  items : List Pattern

/-- What has been read.  Finished choices and the items of the current one are in reverse. -/
structure Progress where
  flags : Flags
  names : List (List Char) := []
  opened : List OpenGroup := []
  choices : List Pattern := []
  items : List Pattern := []

def maxNesting : Nat := 50

def Progress.add (s : Progress) (p : Pattern) : Progress :=
  { s with items := p :: s.items }

/-- The pattern of the innermost open group. -/
def Progress.current (s : Progress) : Pattern :=
  ofChoice ((ofSequence s.items.reverse :: s.choices).reverse)

def dropBlanks (inComment : Bool) : List Char → List Char
  | [] => []
  | c :: rest =>
    if inComment then dropBlanks (c ≠ '\n') rest
    else if Text.isSpace c then dropBlanks false rest
    else if c = '#' then dropBlanks true rest
    else c :: rest

/-- Drops what the flags allow to ignore. -/
def Flags.skip (flags : Flags) (text : List Char) : List Char :=
  if flags.verbose then dropBlanks false text else text

def isMeta (c : Char) : Bool :=
  ['\\', '.', '+', '*', '?', '(', ')', '|', '[', ']', '\x7b', '\x7d', '^', '$', '#', '&', '-',
    '~'].contains c

/-- Characters that stand for themselves behind a backslash. -/
def isEscapable (c : Char) : Bool :=
  isMeta c || (c.toNat < 0x80 && !c.isAlphanum && c ≠ '<' && c ≠ '>')

/-! ### Classes with a name -/

def codes (first last : Char) : Nat × Nat :=
  (first.toNat, last.toNat)

def digitRanges : List (Nat × Nat) := [codes '0' '9']

def spaceRanges : List (Nat × Nat) := [codes '\t' '\r', codes ' ' ' ']

def wordRanges : List (Nat × Nat) :=
  [codes '0' '9', codes 'A' 'Z', codes '_' '_', codes 'a' 'z']

def namedRanges? (name : String) : Option (List (Nat × Nat)) :=
  match name with
  | "alnum" => some [codes '0' '9', codes 'A' 'Z', codes 'a' 'z']
  | "alpha" => some [codes 'A' 'Z', codes 'a' 'z']
  | "ascii" => some [(0, 0x7f)]
  | "blank" => some [codes '\t' '\t', codes ' ' ' ']
  | "cntrl" => some [(0, 0x1f), (0x7f, 0x7f)]
  | "digit" => some digitRanges
  | "graph" => some [codes '!' '~']
  | "lower" => some [codes 'a' 'z']
  | "print" => some [codes ' ' '~']
  | "punct" => some [(0x21, 0x2f), (0x3a, 0x40), (0x5b, 0x60), (0x7b, 0x7e)]
  | "space" => some spaceRanges
  | "upper" => some [codes 'A' 'Z']
  | "word" => some wordRanges
  | "xdigit" => some [codes '0' '9', codes 'A' 'F', codes 'a' 'f']
  | _ => none

def itemsOf (negated : Bool) (ranges : List (Nat × Nat)) : List ClassItem :=
  if negated then [.outside ranges] else ranges.map fun (first, last) => .range first last

/-! ### Escapes -/

/-- What an escape stands for. -/
inductive Escaped where
  | char (c : Char)
  | members (items : List ClassItem)
  | boundary (b : Boundary)

def hexDigit? (c : Char) : Option Nat :=
  if c.isDigit then some (c.toNat - '0'.toNat)
  else if 'a' ≤ c && c ≤ 'f' then some (c.toNat - 'a'.toNat + 10)
  else if 'A' ≤ c && c ≤ 'F' then some (c.toNat - 'A'.toNat + 10)
  else none

/-- The character with a hexadecimal code. -/
def charOfHex? (digits : List Char) : Option Char :=
  if digits.isEmpty then none
  else
    (digits.mapM hexDigit?).bind fun values =>
      let code := values.foldl (fun n d => 16 * n + d) 0
      if code < 0xd800 || (0xdfff < code && code ≤ 0x10ffff) then some (Char.ofNat code) else none

/-- A code of `width` digits, or of any number of digits in braces. -/
def hexEscape? (width : Nat) (text : List Char) : Option (Escaped × List Char) :=
  match text with
  | '\x7b' :: rest =>
    let (digits, after) := rest.span (· ≠ '\x7d')
    match after with
    | [] => none
    | _ :: after => (charOfHex? digits).map fun c => (.char c, after)
  | _ =>
    if (text.take width).length = width then
      (charOfHex? (text.take width)).map fun c => (.char c, text.drop width)
    else none

def isBoundaryLetter (c : Char) : Bool :=
  c.isAlpha || c = '-'

/-- The boundary behind `\b`: one in braces, unless the braces hold a repetition count. -/
def wordBoundary? (flags : Flags) (text : List Char) : Option (Escaped × List Char) :=
  match text with
  | '\x7b' :: rest =>
    match flags.skip rest with
    | [] => none
    | c :: inner =>
      if !isBoundaryLetter c then some (.boundary .word, text)
      else
        let (name, after) := (c :: inner).span isBoundaryLetter
        match String.ofList name, after with
        | "start", '\x7d' :: after => some (.boundary .wordStart, after)
        | "end", '\x7d' :: after => some (.boundary .wordEnd, after)
        | "start-half", '\x7d' :: after => some (.boundary .wordStartHalf, after)
        | "end-half", '\x7d' :: after => some (.boundary .wordEndHalf, after)
        | _, _ => none
  | _ => some (.boundary .word, text)

def escape? (flags : Flags) : List Char → Option (Escaped × List Char)
  | [] => none
  | c :: rest =>
    match c with
    | 'x' => hexEscape? 2 rest
    | 'u' => hexEscape? 4 rest
    | 'U' => hexEscape? 8 rest
    | 'd' => some (.members (itemsOf false digitRanges), rest)
    | 'D' => some (.members (itemsOf true digitRanges), rest)
    | 's' => some (.members (itemsOf false spaceRanges), rest)
    | 'S' => some (.members (itemsOf true spaceRanges), rest)
    | 'w' => some (.members (itemsOf false wordRanges), rest)
    | 'W' => some (.members (itemsOf true wordRanges), rest)
    | 'a' => some (.char '\x07', rest)
    | 'f' => some (.char '\x0c', rest)
    | 't' => some (.char '\t', rest)
    | 'n' => some (.char '\n', rest)
    | 'r' => some (.char '\r', rest)
    | 'v' => some (.char '\x0b', rest)
    | 'A' => some (.boundary .textStart, rest)
    | 'z' => some (.boundary .textEnd, rest)
    | 'b' => wordBoundary? flags rest
    | 'B' => some (.boundary .noWord, rest)
    | '<' => some (.boundary .wordStart, rest)
    | '>' => some (.boundary .wordEnd, rest)
    | c => if isEscapable c then some (.char c, rest) else none

def Escaped.pattern (ignoreCase : Bool) : Escaped → Pattern
  | .char c => .one (.single c ignoreCase)
  | .members items => .one { items }
  | .boundary b => .boundary b

/-! ### Bracketed classes -/

/-- A class name such as `[:alpha:]`, behind its opening bracket. -/
def posixItems? (text : List Char) : Option (List ClassItem × List Char) :=
  match text with
  | ':' :: rest =>
    let (negated, rest) := match rest with
      | '^' :: rest => (true, rest)
      | rest => (false, rest)
    let (name, after) := rest.span (· ≠ ':')
    match after with
    | ':' :: ']' :: after =>
      (namedRanges? (String.ofList name)).map fun ranges => (itemsOf negated ranges, after)
    | _ => none
  | _ => none

/-- One character or one named class inside brackets. -/
def classPrimitive? (flags : Flags) : List Char → Option (Escaped × List Char)
  | [] => none
  | '\\' :: rest => escape? flags rest
  | c :: rest => some (.char c, rest)

def Escaped.items? : Escaped → Option (List ClassItem)
  | .char c => some [.range c.toNat c.toNat]
  | .members items => some items
  | .boundary _ => none

/-- A single item or a range from one character to another. -/
def classItem? (flags : Flags) (text : List Char) : Option (List ClassItem × List Char) := do
  let (first, rest) ← classPrimitive? flags text
  match flags.skip rest with
  | [] => none
  | '-' :: after =>
    let after := flags.skip after
    if after.head? = some ']' || after.head? = some '-' then
      return (← first.items?, flags.skip rest)
    let (last, rest) ← classPrimitive? flags after
    match first, last with
    | .char a, .char b =>
      if a ≤ b then some ([.range a.toNat b.toNat], rest) else none
    | _, _ => none
  | rest => return (← first.items?, rest)

/-- The items up to the closing bracket. -/
def classItems? (flags : Flags) : Nat → List ClassItem → List Char →
    Option (List ClassItem × List Char)
  | 0, _, _ => none
  | fuel + 1, items, text =>
    match flags.skip text with
    | [] => none
    | ']' :: rest => some (items, rest)
    | '[' :: rest => do
      let (more, rest) ← posixItems? rest
      classItems? flags fuel (items ++ more) rest
    | '&' :: '&' :: _ => none
    | '-' :: '-' :: _ => none
    | '~' :: '~' :: _ => none
    | text => do
      let (more, rest) ← classItem? flags text
      classItems? flags fuel (items ++ more) rest

/-- Dashes at the front of a class stand for themselves. -/
def leadingDashes (flags : Flags) : Nat → List ClassItem → List Char →
    List ClassItem × List Char
  | 0, items, text => (items, text)
  | fuel + 1, items, text =>
    match text with
    | '-' :: rest => leadingDashes flags fuel (ClassItem.range 0x2d 0x2d :: items) (flags.skip rest)
    | text => (items, text)

def class? (flags : Flags) (text : List Char) : Option (Pattern × List Char) := do
  let text := flags.skip text
  let (negated, text) := match text with
    | '^' :: rest => (true, flags.skip rest)
    | text => (false, text)
  let (items, text) := leadingDashes flags text.length [] text
  let (items, text) := match items, text with
    | [], ']' :: rest => ([ClassItem.range 0x5d 0x5d], flags.skip rest)
    | items, text => (items, text)
  let (items, rest) ← classItems? flags (text.length + 1) items text
  return (.one { items, negated, ignoreCase := flags.ignoreCase }, rest)

/-! ### Repetitions -/

/-- A question mark behind a repetition asks for the shortest match, which changes
nothing about whether there is one. -/
def dropLazy : List Char → List Char
  | '?' :: rest => rest
  | text => text

def Progress.repeatLast (s : Progress) (least : Nat) (most : Option Nat) (rest : List Char) :
    Option (Progress × List Char) :=
  match s.items with
  | p :: items =>
    let p := match least, most with
      | 0, some 0 => .empty
      | 1, some 1 => p
      | least, most => .repeated p least most
    some ({ s with items := p :: items }, rest)
  | [] => none

/-- A count of at most 32 bits, with blanks on both sides. -/
def count? (flags : Flags) (text : List Char) : Option (Nat × List Char) :=
  let (digits, rest) := (text.dropWhile Text.isSpace).span Char.isDigit
  ((decimalDigits? digits).filter (· < shortWordBound)).map fun n =>
    (n, (flags.skip rest).dropWhile Text.isSpace)

/-- Reads the bounds of a repetition behind its opening brace. -/
def counted? (s : Progress) (text : List Char) : Option (Progress × List Char) := do
  let (least, rest) ← count? s.flags (s.flags.skip text)
  let (most, rest) ← match rest with
    | ',' :: rest =>
      match s.flags.skip rest with
      | '\x7d' :: rest => some (none, '\x7d' :: rest)
      | rest => (count? s.flags rest).map fun (most, rest) => (some most, rest)
    | rest => some (some least, rest)
  match rest with
  | '\x7d' :: rest =>
    if most.any (· < least) then none
    else s.repeatLast least most (dropLazy (s.flags.skip rest))
  | _ => none

/-! ### Groups -/

def Flags.set? (flags : Flags) (on : Bool) : Char → Option Flags
  | 'i' => some { flags with ignoreCase := on }
  | 'm' => some { flags with multiLine := on }
  | 's' => some { flags with dotAll := on }
  | 'R' => some { flags with anyLineEnd := on }
  | 'x' => some { flags with verbose := on }
  | 'U' | 'u' => some flags
  | _ => none

/-- Reads flags up to a colon or a closing parenthesis, each flag at most once and at most
one minus sign, not at the end. -/
def flags? (negated afterMinus : Bool) (seen : List Char) (flags : Flags) :
    List Char → Option (Flags × List Char)
  | [] => none
  | c :: rest =>
    if c = ':' || c = ')' then if afterMinus then none else some (flags, c :: rest)
    else if c = '-' then
      if negated then none else flags? true true seen flags rest
    else if seen.contains c then none
    else
      match flags.set? (!negated) c with
      | some flags => flags? negated false (c :: seen) flags rest
      | none => none

def isNameStart (c : Char) : Bool :=
  c.isAlpha || c = '_'

def isNameChar (c : Char) : Bool :=
  c.isAlphanum || c = '_' || c = '.' || c = '[' || c = ']'

/-- The name of a group, up to its closing angle. -/
def groupName? (text : List Char) : Option (List Char × List Char) :=
  let (name, after) := text.span (· ≠ '>')
  match name, after with
  | first :: others, _ :: after =>
    if isNameStart first && others.all isNameChar then some (name, after) else none
  | _, _ => none

def Progress.open? (s : Progress) (capturing : Bool) (inside : Flags) (rest : List Char) :
    Option (Progress × List Char) :=
  if maxNesting ≤ s.opened.length then none
  else
    let level : OpenGroup :=
      { capturing, outside := s.flags, choices := s.choices, items := s.items }
    some ({ s with flags := inside, opened := level :: s.opened, choices := [], items := [] },
      rest)

def Progress.openNamed? (s : Progress) (text : List Char) : Option (Progress × List Char) := do
  let (name, rest) ← groupName? text
  if s.names.contains name then none
  else Progress.open? { s with names := name :: s.names } true s.flags rest

/-- Reads what follows an opening parenthesis: a group begins, or flags are set. -/
def openGroup? (s : Progress) (text : List Char) : Option (Progress × List Char) :=
  match s.flags.skip text with
  | '?' :: '=' :: _ => none
  | '?' :: '!' :: _ => none
  | '?' :: '<' :: '=' :: _ => none
  | '?' :: '<' :: '!' :: _ => none
  | '?' :: 'P' :: '<' :: rest => s.openNamed? rest
  | '?' :: '<' :: rest => s.openNamed? rest
  | '?' :: ')' :: _ => none
  | '?' :: rest => do
    let (flags, rest) ← flags? false false [] s.flags rest
    match rest with
    | ')' :: rest => some ({ s with flags }, rest)
    | _ :: rest => s.open? false flags rest
    | [] => none
  | rest => s.open? true s.flags rest

def closeGroup? (s : Progress) (rest : List Char) : Option (Progress × List Char) :=
  match s.opened with
  | [] => none
  | level :: opened =>
    let p := if level.capturing then .group s.current else s.current
    some
      ({ s with
          flags := level.outside, opened, choices := level.choices, items := p :: level.items },
        rest)

/-! ### The whole text -/

/-- Any character, but no end of a line unless the flags say so. -/
def Flags.dot (flags : Flags) : CharClass :=
  if flags.dotAll then { items := [.outside []] }
  else if flags.anyLineEnd then { items := [.outside [codes '\n' '\n', codes '\r' '\r']] }
  else { items := [.outside [codes '\n' '\n']] }

def Flags.start (flags : Flags) : Boundary :=
  if flags.multiLine then if flags.anyLineEnd then .anyLineStart else .lineStart else .textStart

def Flags.finish (flags : Flags) : Boundary :=
  if flags.multiLine then if flags.anyLineEnd then .anyLineEnd else .lineEnd else .textEnd

def step? (s : Progress) (c : Char) (rest : List Char) : Option (Progress × List Char) :=
  match c with
  | '(' => openGroup? s rest
  | ')' => closeGroup? s rest
  | '|' => some ({ s with choices := ofSequence s.items.reverse :: s.choices, items := [] }, rest)
  | '[' => (class? s.flags rest).map fun (p, rest) => (s.add p, rest)
  | '?' => s.repeatLast 0 (some 1) (dropLazy rest)
  | '*' => s.repeatLast 0 none (dropLazy rest)
  | '+' => s.repeatLast 1 none (dropLazy rest)
  | '\x7b' => counted? s rest
  | '\\' =>
    (escape? s.flags rest).map fun (escaped, rest) =>
      (s.add (escaped.pattern s.flags.ignoreCase), rest)
  | '.' => some (s.add (.one s.flags.dot), rest)
  | '^' => some (s.add (.boundary s.flags.start), rest)
  | '$' => some (s.add (.boundary s.flags.finish), rest)
  | c => some (s.add (.one (.single c s.flags.ignoreCase)), rest)

def Progress.finish? (s : Progress) : Option Pattern :=
  if s.opened.isEmpty && s.current.height ≤ maxNesting then some s.current else none

def readAll? : Nat → Progress → List Char → Option Pattern
  | 0, _, _ => none
  | fuel + 1, s, text =>
    match s.flags.skip text with
    | [] => s.finish?
    | c :: rest => (step? s c rest).bind fun (s, rest) => readAll? fuel s rest

def parse? (text : String) (ignoreCase : Bool) : Option Pattern :=
  let chars := text.toList
  readAll? (chars.length + 1) { flags := { ignoreCase } } chars

/-- A text as a pattern that matches exactly this text. -/
def literalText (text : String) : String :=
  String.ofList (text.toList.flatMap fun c => if isMeta c then ['\\', c] else [c])

end Pattern

end DocumentBase
