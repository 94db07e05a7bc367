import GrammarEngine.Error
import GrammarEngine.Text.Excerpt

namespace GrammarEngine

/-!
# Vectors of machine words

A growable vector of unsigned 64-bit words, used for the bounds of character classes.

* `ofInts`, `ofItems`, `push` — numbers outside of `0 … 2^64 - 1` are an error;
* `pop`, `top`, `get`, `truncate` — an index below zero counts from the end;
* `render` — the written form.
-/

/-! ### Single characters as numbers -/

/-- The code point of a text of one character. -/
def codePointOf (text : String) : Except Error Nat :=
  match text.toList with
  | [c] => .ok c.toNat
  | _ => .error .wrongType

/-! ### Vectors -/

/-- A growable vector of 64-bit words. -/
structure WordVector where
  words : Array UInt64
  deriving DecidableEq, Repr

namespace WordVector

/-- The vector without words. -/
def empty : WordVector := ⟨#[]⟩

/-- The words as numbers. -/
def toList (v : WordVector) : List Nat := v.words.toList.map UInt64.toNat

/-- The number of words. -/
def size (v : WordVector) : Nat := v.words.size

/-- Add a number at the end. -/
def push (v : WordVector) (n : Int) : Except Error WordVector :=
  if 0 ≤ n ∧ n < UInt64.size then .ok ⟨v.words.push (UInt64.ofNat n.toNat)⟩ else .error .overflow

/-- The vector of some numbers. -/
def ofInts (ns : List Int) : Except Error WordVector := ns.foldlM push empty

/-- The vector of some numbers and of some single characters, which stand for their code
    points. -/
def ofItems (items : List (Int ⊕ String)) : Except Error WordVector :=
  items.foldlM (fun v item => match item with
    | .inl n => v.push n
    | .inr text => do v.push (← codePointOf text)) empty

/-- The last number, and the vector without it. -/
def pop (v : WordVector) : Except Error (Nat × WordVector) :=
  match v.words.back? with
  | some w => .ok (w.toNat, ⟨v.words.pop⟩)
  | none => .error (.index .popEmpty)

/-- The last number. -/
def top (v : WordVector) : Except Error Nat :=
  match v.words.back? with
  | some w => .ok w.toNat
  | none => .error (.index .topEmpty)

/-- The number at an index. -/
def get (v : WordVector) (index : Int) : Except Error Nat :=
  let place := if index < 0 then index + v.size else index
  if place < 0 then .error (.index (.outside .array index))
  else match v.words[place.toNat]? with
    | some w => .ok w.toNat
    | none => .error (.index (.outside .array index))

/-- Drop everything from an index on. -/
def truncate (v : WordVector) (length : Int) : WordVector :=
  ⟨v.words.take (placeOf v.size length)⟩

/-- The written form. -/
def render (v : WordVector) : String :=
  "IntVector([" ++ ", ".intercalate (v.toList.map toString) ++ "])"

theorem toList_push {v w : WordVector} {n : Int} (h : v.push n = .ok w) :
    w.toList = v.toList ++ [n.toNat] := by
  unfold push at h
  split at h
  · rename_i hn
    cases h
    have hlt : n.toNat < UInt64.size := by omega
    simp [toList, UInt64.toNat_ofNat_of_lt' hlt]
  · cases h

theorem push_of_lt (v : WordVector) {n : Nat} (h : n < UInt64.size) :
    ∃ w, v.push n = .ok w ∧ w.toList = v.toList ++ [n] := by
  have hfits : (0 : Int) ≤ n ∧ (n : Int) < UInt64.size := by omega
  have hpush : v.push n = .ok ⟨v.words.push (UInt64.ofNat (n : Int).toNat)⟩ := if_pos hfits
  exact ⟨_, hpush, toList_push hpush⟩

/-- Numbers that fit into a word are kept as they are. -/
theorem ofInts_of_lt (ns : List Nat) (h : ∀ n ∈ ns, n < UInt64.size) :
    ∃ v, ofInts (ns.map fun n : Nat => (n : Int)) = .ok v ∧ v.toList = ns := by
  -- What was pushed before stays in front.
  suffices hfold : ∀ v : WordVector,
      ∃ w, (ns.map fun n : Nat => (n : Int)).foldlM push v = .ok w ∧ w.toList = v.toList ++ ns by
    exact hfold empty
  induction ns with
  | nil => exact fun v => ⟨v, rfl, (List.append_nil _).symm⟩
  | cons n ns ih =>
    intro v
    obtain ⟨hn, hns⟩ := List.forall_mem_cons.mp h
    obtain ⟨v', hpush, hv'⟩ := v.push_of_lt hn
    obtain ⟨w, hfold, hw⟩ := ih hns v'
    refine ⟨w, ?_, ?_⟩
    · rw [List.map_cons, List.foldlM_cons, hpush]
      exact hfold
    · rw [hw, hv', List.append_assoc, List.singleton_append]

@[simp] theorem length_toList (v : WordVector) : v.toList.length = v.size := by
  simp [toList, size]

end WordVector

end GrammarEngine
