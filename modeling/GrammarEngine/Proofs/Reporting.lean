import GrammarEngine.Grammar.Basic
import GrammarEngine.Proofs.Memory

namespace GrammarEngine

/-!
# Reports about a text

Where a position stands on the page, and what is around it, is a matter of the text alone. A stream
reads as far as the report goes, and what it did not read makes no difference.

* `whereabouts` — the line and the column of a position of a text;
* `surroundings` — the excerpt around a position;
* `Stream.location_loads`, `Stream.context_loads` — what a stream reports;
* `Stream.IsWhole` — a stream that has read its text reports on all of it;
* `refusal` — the error that refuses a text at a position;
* `Error.placed` — what an error in the walk of a tree comes to.
-/

/-- The line and the column of a position: one more than the line feeds before it, and one more than
    the characters between the last of them and the position. -/
def whereabouts (text : List Char) (position : Nat) : Int × Int :=
  ((text.take position).count '\n' + 1,
    ((text.take position).reverse.takeWhile (· ≠ '\n')).length + 1)

/-- The excerpt around a position, with the character at that position in braces. -/
def surroundings (text : Array Char) (position width : Int) : String :=
  excerpt text (max 0 (position - width)) position
    ++ "\x7b" ++ excerpt text position (position + 1)
    ++ "\x7d" ++ excerpt text (position + 1) (position + 1 + width)

theorem locate_natCast (text : Array Char) (position : Nat) :
    locate text position = whereabouts text.toList position := by
  have hmin : min (position : Int) text.size = (min position text.size : Nat) := by omega
  have htake : text.toList.take (min position text.size) = text.toList.take position := by
    rw [← Array.length_toList, ← List.take_eq_take_min]
  have hline : ((text.toList.take position).reverse.takeWhile (· ≠ '\n')).length ≤
      (text.toList.take position).length := by
    rw [← @List.length_reverse _ (text.toList.take position)]
    exact (List.takeWhile_prefix _).length_le
  have hlength : (text.toList.take position).length = min position text.size := by
    rw [List.length_take, Array.length_toList]
  simp only [locate, whereabouts, hmin, placeOf_natCast, htake]
  refine Prod.ext rfl ?_
  simp only
  omega

theorem whereabouts_of_take_eq {text text' : List Char} {position : Nat}
    (h : text.take position = text'.take position) :
    whereabouts text position = whereabouts text' position := by
  rw [whereabouts, whereabouts, h]

/-! ### Streams -/

namespace Stream

variable {s : Stream} {text : List Char}

/-- What was read of a text, up to a position or to the end of the text. -/
theorem Spells.take_buffer {p : Nat} (h : s.Spells text) (hp : min p text.length ≤ s.buffer.size) :
    s.buffer.toList.take p = text.take p := by
  obtain ⟨rest, rfl⟩ := h.isPrefix
  rw [List.length_append, Array.length_toList] at hp
  rw [List.take_append]
  have hrest : rest.take (p - s.buffer.toList.length) = [] := by
    rw [Array.length_toList, List.take_eq_nil_iff]
    by_cases hle : p ≤ s.buffer.size
    · exact .inl (by omega)
    · exact .inr (List.length_eq_zero_iff.mp (by omega))
  rw [hrest, List.append_nil]

theorem Spells.excerpt_eq {first last : Nat} (h : s.Spells text)
    (hlast : min last text.length ≤ s.buffer.size) :
    excerpt s.buffer first last = excerpt text.toArray first last := by
  apply String.toList_inj.mp
  rw [toList_excerpt, toList_excerpt, h.take_buffer hlast]

/-- The location of a position is the one in the text. -/
theorem location_loads (h : s.Spells text) {position? : Option Int} {p : Nat}
    (hp : position?.getD s.position = p) :
    ∃ s', location position? s = .ok (whereabouts text p) s' ∧ Loads text s s' := by
  obtain ⟨s', hensure, hloads, hmin⟩ := ensure_loads h p
  refine ⟨s', ?_, hloads⟩
  have hlocate : locate s'.buffer p = whereabouts text p := by
    rw [locate_natCast]
    exact whereabouts_of_take_eq (hloads.spells.take_buffer (by omega))
  simp only [location, Step.get_bind, hp, Step.bind_ok hensure, hlocate]
  rfl

/-- The excerpt around a position is the one of the text. -/
theorem context_loads (h : s.Spells text) {position? : Option Int} {p : Nat} (width : Nat)
    (hp : position?.getD s.position = p) :
    ∃ s', context position? width s = .ok (surroundings text.toArray p width) s' ∧
      Loads text s s' := by
  obtain ⟨s', hensure, hloads, hmin⟩ := ensure_loads h (p + width + 1)
  refine ⟨s', ?_, hloads⟩
  have hexcerpt : ∀ first last : Nat, last ≤ p + width + 1 →
      excerpt s'.buffer first last = excerpt text.toArray first last :=
    fun first last hle => hloads.spells.excerpt_eq (by omega)
  have hfirst : max 0 ((p : Int) - width) = (p - width : Nat) := by omega
  have hbefore := hexcerpt (p - width) p (by omega)
  have hhere := hexcerpt p (p + 1) (by omega)
  have hafter := hexcerpt (p + 1) (p + 1 + width) (by omega)
  push_cast at hhere hafter
  simp only [context, Step.get_bind, hp, Step.bind_ok hensure, surroundings, hfirst, hbefore,
    hhere, hafter]
  rfl

/-- The stream has read all of the text. -/
structure IsWhole (text : List Char) (s : Stream) : Prop where
  spells : s.Spells text
  all : s.buffer.toList = text

namespace IsWhole

/-- A stream over a text in memory has read it. -/
theorem of_inMemory (hs : s.InMemory) : s.IsWhole s.buffer.toList := by
  have hsource : s.source = .memory := hs
  exact ⟨by rw [Spells, hsource], rfl⟩

/-- There is nothing left to read. -/
theorem loads {s' : Stream} (h : s.IsWhole text) (hloads : Loads text s s') : s'.IsWhole text := by
  refine ⟨hloads.spells, hloads.spells.isPrefix.eq_of_length ?_⟩
  have hlength := congrArg List.length h.all
  have hle := hloads.spells.isPrefix.length_le
  have hsize := hloads.size_le
  rw [Array.length_toList] at hlength hle ⊢
  omega

theorem buffer_eq (h : s.IsWhole text) : s.buffer = text.toArray := by
  rw [← h.all, Array.toArray_toList]

end IsWhole

/-- A report about a text that was read is one about all of it, also for places before it. -/
theorem location_whole (h : s.IsWhole text) (position : Int) :
    ∃ s', location (some position) s = .ok (locate text.toArray position) s' ∧
      Loads text s s' := by
  obtain ⟨s', hensure, hloads, -⟩ := ensure_loads h.spells position
  refine ⟨s', ?_, hloads⟩
  rw [location, Step.get_bind, Option.getD_some, Step.bind_ok hensure, Step.get_bind,
    (h.loads hloads).buffer_eq]
  rfl

theorem context_whole (h : s.IsWhole text) (position width : Int) :
    ∃ s', context (some position) width s = .ok (surroundings text.toArray position width) s' ∧
      Loads text s s' := by
  obtain ⟨s', hensure, hloads, -⟩ := ensure_loads h.spells (position + width + 1)
  refine ⟨s', ?_, hloads⟩
  rw [context, Step.get_bind, Option.getD_some, Step.bind_ok hensure, Step.get_bind,
    (h.loads hloads).buffer_eq]
  rfl

end Stream

/-! ### Errors in the input -/

/-- The error that refuses a text at a position. -/
def refusal (text : Array Char) (complaint : String → Complaint) (position : Int) : ParseError where
  complaint := complaint (surroundings text position Stream.contextWidth)
  isSemantic := false
  position := position
  location := some (locate text position)

/-- What an error in the walk of a tree comes to, where the tree starts at a position of a text. -/
def Error.placed (text : Array Char) (start : Int) : Error → Error
  | .nestedTooDeeply => .parse (refusal text .nestedTooDeeply start)
  | .parse e => .parse { e with location := some (e.location.getD (locate text e.position)) }
  | e => e

/-- What is reported of an error in the walk of a tree. -/
def Error.noted (text : Array Char) (start : Int) : Error → List Event
  | .nestedTooDeeply =>
    [.parseFailed start (refusal text .nestedTooDeeply start).complaint.message]
  | _ => []

namespace Grammar

open MatchM

variable {β α : Type} {s : MatchState} {text : List Char}

/-- Refusing an input that was read, at any position. -/
theorem refuse_whole (h : s.stream.IsWhole text) (complaint : String → Complaint)
    (position : Int) :
    ∃ stream, (refuse complaint position : MatchM β) s =
        .error (.parse (refusal text.toArray complaint position)) { s with
          stream
          events := .parseFailed position (refusal text.toArray complaint position).complaint.message
            :: s.events } ∧
      Stream.Loads text s.stream stream := by
  obtain ⟨stream₁, hcontext, hloads₁⟩ := Stream.context_whole h position Stream.contextWidth
  obtain ⟨stream₂, hlocation, hloads₂⟩ := Stream.location_whole (h.loads hloads₁) position
  refine ⟨stream₂, ?_, hloads₁.trans hloads₂⟩
  rw [refuse, Step.bind_ok (onStream_ok hcontext), Step.modify_bind]
  exact Step.bind_ok (s := ({ s with stream := stream₁ } : MatchState).report
    (.parseFailed position _)) (onStream_ok hlocation) _

/-- What an error in the walk of a tree comes to, where the input was read. -/
theorem failWalk_whole (h : s.stream.IsWhole text) (root : Token α) (e : Error) :
    ∃ s', (failWalk root e : MatchM β) s = .error (e.placed text.toArray root.start) s' ∧
      s'.events = e.noted text.toArray root.start ++ s.events := by
  cases e with
  | nestedTooDeeply =>
    obtain ⟨stream, hrefuse, -⟩ := refuse_whole (β := β) h .nestedTooDeeply root.start
    exact ⟨_, hrefuse, rfl⟩
  | parse e =>
    obtain ⟨complaint, isSemantic, position, location?⟩ := e
    cases location? with
    | some location => exact ⟨s, rfl, rfl⟩
    | none =>
      obtain ⟨stream, hlocation, -⟩ := Stream.location_whole h position
      exact ⟨_, Step.bind_ok (onStream_ok hlocation) _, rfl⟩
  | _ => exact ⟨s, rfl, rfl⟩

end Grammar

end GrammarEngine
