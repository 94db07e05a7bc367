import GrammarEngine.Matching.Event
import GrammarEngine.Stream.Basic

namespace GrammarEngine

/-!
# What matching works on

* `Guard` — the symbols that are being matched, by name, each with the position it is matched at;
* `MatchState` — the stream, the guard, and the events so far;
* `MatchM` — steps of a match, which keep the changes made before they fail.
-/

/-- The matches in progress: names of symbols and the positions where they started. -/
abbrev Guard := List (Name × Int)

instance (key : Name × Int) (guard : Guard) : Decidable (key ∈ guard) := inferInstance

/-- What a match works on. -/
structure MatchState where
  stream : Stream
  guard : Guard
  /-- The events so far, the last one first. -/
  events : List Event
  deriving Repr

/-- Steps of a match. -/
abbrev MatchM := EStateM Error MatchState

namespace MatchState

/-- Nothing is being matched yet. -/
def ofStream (stream : Stream) : MatchState := { stream, guard := [], events := [] }

/-- Report an event. -/
def report (s : MatchState) (event : Event) : MatchState :=
  { s with events := event :: s.events }

/-- A match is in progress. -/
def enter (s : MatchState) (key : Name × Int) : MatchState :=
  { s with guard := key :: s.guard }

/-- A match is over. -/
def leave (s : MatchState) (key : Name × Int) : MatchState :=
  { s with guard := s.guard.erase key }

@[simp] theorem stream_report (s : MatchState) (e : Event) : (s.report e).stream = s.stream := rfl

@[simp] theorem guard_report (s : MatchState) (e : Event) : (s.report e).guard = s.guard := rfl

@[simp] theorem stream_enter (s : MatchState) (k : Name × Int) :
    (s.enter k).stream = s.stream := rfl

@[simp] theorem stream_leave (s : MatchState) (k : Name × Int) :
    (s.leave k).stream = s.stream := rfl

/-- A match that is over right after it began leaves the guard as it was. -/
@[simp] theorem leave_enter (s : MatchState) (k : Name × Int) : (s.enter k).leave k = s := by
  simp [enter, leave]

end MatchState

namespace MatchM

/-- Do something with the stream. -/
def onStream {β : Type} (op : StreamM β) : MatchM β := fun s =>
  match op s.stream with
  | .ok b stream => .ok b { s with stream }
  | .error e stream => .error e { s with stream }

/-- The current position in the stream. -/
def position : MatchM Int := fun s => .ok s.stream.position s

/-- Is a symbol of this name being matched from this position? -/
def isInProgress (key : Name × Int) : MatchM Bool := fun s => .ok (decide (key ∈ s.guard)) s

end MatchM

end GrammarEngine
