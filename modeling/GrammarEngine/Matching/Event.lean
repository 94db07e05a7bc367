import GrammarEngine.Name
import GrammarEngine.Text.Quoted

namespace GrammarEngine

/-!
# Events

What the engine reports about its work: every match that is tried, and what becomes of a parse.
`Event.message` is the line for an event.
-/

/-- Something worth a line in the log. -/
inductive Event
  /-- A symbol was asked to match where it is being matched already. -/
  | inProgress (name : Name) (position : Int)
  | unmatched (name : Name) (position : Int)
  | matched (name : Name) (position : Int) (substring : String)
  /-- A grammar was put together. -/
  | built (rules listeners : Nat) (start skip : String)
  /-- An input was refused. -/
  | parseFailed (position : Int) (message : String)
  /-- An error in the input was turned into no result. -/
  | dismissed (error : String)
  deriving DecidableEq, Repr

/-- The line for an event. -/
def Event.message : Event → String
  | .inProgress name position =>
    name.text ++ " @" ++ toString position ++ ": already in progress"
  | .unmatched name position => name.text ++ " @" ++ toString position ++ ": no match"
  | .matched name position substring =>
    name.text ++ " @" ++ toString position ++ ": matched " ++ quoted substring
  | .built rules listeners start skip =>
    "built grammar: " ++ toString rules ++ " rules, " ++ toString listeners
      ++ " listeners, start=" ++ quoted start ++ " skip=" ++ quoted skip
  | .parseFailed position message => "parse failed at " ++ toString position ++ ": " ++ message
  | .dismissed error => "parse_or_none: " ++ error

end GrammarEngine
