import RowGraph.Row
import RowGraph.Sql.Statement

/-!
# Session — the engine behind a session

The engine runs statements.  An `Engine` is one with its answers laid down in advance: it answers
each statement with the next of them, with no rows once they are used up, and it keeps the
statements it was given.
-/

namespace RowGraph

/-- What the engine reports when it fails. -/
structure EngineFailure where
  message : String
  reason : Option String
  deriving DecidableEq, Repr

namespace EngineFailure

/-- Does the pattern occur in the text? -/
def occurs (pattern : List Char) : List Char → Bool
  | [] => pattern.isEmpty
  | c :: cs => pattern.isPrefixOf (c :: cs) || occurs pattern cs

/-- The statement met rows that were streamed in too recently to be changed.  Only the message
tells, by a phrase in any case. -/
def isStreaming (f : EngineFailure) : Bool :=
  occurs "streaming buffer".toList (f.message.toList.map Char.toLower)

/-- The message, with advice if trying again later helps. -/
def advice (f : EngineFailure) : String :=
  if f.isStreaming then
    f.message ++ ": recently streamed rows cannot be modified yet, " ++
      "retry after the streaming buffer flushes"
  else f.message

end EngineFailure

/-- The answer to a statement: rows, or a failure. -/
abbrev Answer := Except EngineFailure (List Row)

/-- Answers still to be given, and the statements received, oldest first. -/
structure Engine where
  answers : List Answer
  received : List Sql.Statement

namespace Engine

def ofAnswers (answers : List Answer) : Engine := ⟨answers, []⟩

/-- Runs a statement. -/
def execute (e : Engine) (s : Sql.Statement) : Answer × Engine :=
  match e.answers with
  | [] => (.ok [], ⟨[], e.received ++ [s]⟩)
  | a :: rest => (a, ⟨rest, e.received ++ [s]⟩)

end Engine

end RowGraph
