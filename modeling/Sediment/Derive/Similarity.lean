import Sediment.Core.Models

namespace Sediment.Derive

def isWordStart (c : Char) : Bool :=
  ('a' ≤ c && c ≤ 'z') || ('A' ≤ c && c ≤ 'Z') || c == '_'

/-- The run that a scan of the pattern `[a-zA-Z_][a-zA-Z0-9_]*|[0-9]+` is inside of. -/
inductive TokenRun where
  | between
  | word (chars : List Char)
  | number (chars : List Char)

def TokenRun.close : TokenRun → List (List Char)
  | .between => []
  | .word chars => [chars]
  | .number chars => [chars]

def openRun (c : Char) : TokenRun :=
  if isWordStart c then .word [c] else if c.isDigit then .number [c] else .between

/-- `re.findall` of the token pattern, one character at a time. -/
def findTokens : TokenRun → List Char → List (List Char)
  | run, [] => run.close
  | .between, c :: rest => findTokens (openRun c) rest
  | .word chars, c :: rest =>
    if isWordStart c || c.isDigit then findTokens (.word (chars ++ [c])) rest
    else chars :: findTokens (openRun c) rest
  | .number chars, c :: rest =>
    if c.isDigit then findTokens (.number (chars ++ [c])) rest
    else chars :: findTokens (openRun c) rest

/-- The pattern matches ASCII only, so lower case is ASCII lower case. -/
def tokenize (text : List Char) : Finset (List Char) :=
  ((findTokens .between text).map (fun token => token.map Char.toLower)).toFinset

end Sediment.Derive
