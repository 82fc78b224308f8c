import FrameGraph.Code.Tag
import FrameGraph.Text.Line

/-!
Lines of node code in which every reference to the node and its sockets is a token of its own.
-/

namespace FrameGraph

inductive Token
  /-- Code copied as it is. -/
  | text (s : String)
  /-- The node itself. -/
  | self
  /-- The value of an input. -/
  | input (name : String)
  /-- The variable that receives an output. -/
  | output (name : String)
deriving DecidableEq, Repr

structure Fragment where
  tokens : List Token
deriving DecidableEq, Repr

namespace Token

def marked : Token → String
  | text s => s
  | self => Tag.wrap Tag.self "self"
  | input name => Tag.wrap Tag.input name
  | output name => Tag.wrap Tag.output name

end Token

namespace Fragment

def empty : Fragment := ⟨[]⟩

/-- Appends a token. Empty text is dropped, and text after text is merged with it. -/
def push (fragment : Fragment) (token : Token) : Fragment :=
  match token with
  | .text s =>
    if s = "" then fragment
    else
      match fragment.tokens.getLast? with
      | some (.text before) => ⟨fragment.tokens.dropLast ++ [.text (before ++ s)]⟩
      | _ => ⟨fragment.tokens ++ [.text s]⟩
  | token => ⟨fragment.tokens ++ [token]⟩

def ofTokens (tokens : List Token) : Fragment :=
  tokens.foldl push empty

def isEmpty (fragment : Fragment) : Bool :=
  fragment.tokens.isEmpty

def usesSelf (fragment : Fragment) : Bool :=
  fragment.tokens.contains .self

def marked (fragment : Fragment) : String :=
  String.join (fragment.tokens.map Token.marked)

def pushLast (lines : List Fragment) (token : Token) : List Fragment :=
  match lines.getLast? with
  | some last => lines.dropLast ++ [last.push token]
  | none => []

/-- Appends a token to the lines; the newlines of a text start new ones. -/
def addToken (lines : List Fragment) : Token → List Fragment
  | .text s =>
    match Text.lines s with
    | [] => lines
    | first :: others =>
      pushLast lines (.text first) ++ others.map fun piece => empty.push (.text piece)
  | token => pushLast lines token

def splitLines (fragment : Fragment) : List Fragment :=
  fragment.tokens.foldl addToken [empty]

end Fragment

end FrameGraph
