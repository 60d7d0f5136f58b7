import RowGraph.Sql.Token
import RowGraph.Value.Basic

/-!
# Sql — fragments

A fragment is a sequence of chunks: keywords and signs, quoted identifiers, bare names, numbers
and parameters.  Identifiers are kept as they are and quoted only when the fragment is written, so
no name can leave its quotes.  `Fragment.text` writes the chunks in order with a blank between two
neighbours exactly where `Chunk.spaced` says so.
-/

namespace RowGraph.Sql

/-- One piece of a fragment. -/
inductive Chunk where
  | token (t : Token)
  | ident (name : String)
  | raw (text : String)
  | number (n : Nat)
  | param (name : String) (value : Value)
  deriving Repr

namespace Chunk

/-- A character of a quoted identifier: the quote and the backslash take a backslash. -/
def escapeIdent (c : Char) : List Char :=
  if c = '\x60' ∨ c = '\x5c' then ['\x5c', c] else [c]

def quoteIdent (name : String) : String :=
  "\x60" ++ String.ofList (name.toList.flatMap escapeIdent) ++ "\x60"

/-- The written form. -/
def text : Chunk → String
  | .token t => t.text
  | .ident name => quoteIdent name
  | .raw text => text
  | .number n => toString n
  | .param name _ => "@" ++ name

/-- Everything but signs and punctuation is spaced like a word. -/
def isWord : Chunk → Bool
  | .token t => t.isWord
  | _ => true

def isOperator : Chunk → Bool
  | .token t => t.isOperator
  | _ => false

/-- Is a blank written between two neighbours?  The first line that applies decides: closing
marks stick to what stands before them, opening ones to what follows, a bare name to the
parenthesis of its call; comparison signs and words are set apart. -/
def spaced : Chunk → Chunk → Bool
  | _, .token .rparen | _, .token .comma | _, .token .dot => false
  | .token .lparen, _ | .token .dot, _ => false
  | .token .comma, _ => true
  | .raw _, .token .lparen => false
  | .token .rparen, _ => true
  | a, .token .lparen => a.isWord
  | a, b => a.isOperator || b.isOperator || (a.isWord && b.isWord)

end Chunk

/-- A piece of SQL with its parameters in place. -/
abbrev Fragment := List Chunk

namespace Fragment

/-! ### Building -/

def token (t : Token) : Fragment := [.token t]

def ident (name : String) : Fragment := [.ident name]

/-- A column, behind its table's alias if it has one. -/
def column (qualifier : Option String) (name : String) : Fragment :=
  match qualifier with
  | some q => [.ident q, .token .dot, .ident name]
  | none => [.ident name]

def parens (f : Fragment) : Fragment := .token .lparen :: f ++ [.token .rparen]

/-- A call of the function `name`. -/
def call (name : String) (args : Fragment) : Fragment := .raw name :: parens args

/-- The parts with a token between each two. -/
def join (separator : Token) : List Fragment → Fragment
  | [] => []
  | [f] => f
  | f :: fs => f ++ .token separator :: join separator fs

def commas (parts : List Fragment) : Fragment := join .comma parts

/-- The parts joined, each in parentheses unless it is the only one. -/
def joinGrouped (separator : Token) : List Fragment → Fragment
  | [f] => f
  | fs => join separator (fs.map parens)

/-! ### Reading off -/

/-- The written form. -/
def text : Fragment → String
  | [] => ""
  | [c] => c.text
  | c :: d :: rest => c.text ++ (if c.spaced d then " " else "") ++ text (d :: rest)

/-- The parameters in the order of their placeholders. -/
def params (f : Fragment) : List (String × Value) :=
  f.filterMap fun
    | .param name value => some (name, value)
    | _ => none

end Fragment

end RowGraph.Sql
