import ScriptEngine.Program
import ScriptEngine.Proofs.Grammar.Rows

/-!
# Positions and offsets

A position is told by a line and a column, an offset by bytes. Between characters the two say the
same: what comes later in the source has a later position (`Position.byFeed_before`), so a position
determines its offset. The two conventions for the end of a line differ only between a carriage
return and its line feed (`Position.byBreak_eq_byFeed`).
-/
namespace ScriptEngine

variable {source front rest : List Char} {o o' : Nat}

/-- Between two boundaries there are characters. -/
theorem Boundary.between (first : Boundary source o) (second : Boundary source o') (earlier : o < o') :
    ∃ front c middle rest, source = front ++ (c :: middle ++ rest) ∧ o = byteLength front ∧
      o' = byteLength (front ++ c :: middle) := by
  obtain ⟨front, rest, whole, rfl⟩ := first
  obtain ⟨front', rest', whole', rfl⟩ := second
  obtain ⟨more, rfl, rfl⟩ | ⟨more, rfl, rfl⟩ :=
    List.append_eq_append_iff.1 (whole.symm.trans whole')
  · cases more with
    | nil => simp at earlier
    | cons c middle => exact ⟨front, c, middle, rest', whole, rfl, rfl⟩
  · -- The second one would not be behind the first.
    rw [byteLength_append] at earlier
    omega

namespace Position

variable {a b c : Position}

/-! ## The order of reading -/

theorem before_iff :
    a.before b = true ↔ a.line < b.line ∨ a.line = b.line ∧ a.column < b.column := by
  simp [before]

theorem before_trans (first : a.before b = true) (second : b.before c = true) :
    a.before c = true := by
  rw [before_iff] at *
  omega

theorem not_before_self (a : Position) : a.before a ≠ true := by
  simp [before]

theorem before_asymm (earlier : a.before b = true) : b.before a ≠ true :=
  fun later => not_before_self a (before_trans earlier later)

/-! ## One character after the other -/

/-- The position behind a character, which ends a line if it is a line feed. -/
def behind (here : Position) (c : Char) : Position :=
  if c = '\n' then here.nextLine else here.nextColumn

/-- Every character leads on. -/
theorem before_behind (here : Position) (c : Char) : here.before (here.behind c) = true := by
  rw [before_iff, behind]
  split
  · exact .inl (Nat.lt_succ_self _)
  · exact .inr ⟨rfl, Nat.lt_succ_self _⟩

theorem before_foldl_behind (here : Position) (c : Char) (more : List Char) :
    here.before ((c :: more).foldl behind here) = true := by
  induction more generalizing here c with
  | nil => exact before_behind here c
  | cons next more ih => exact before_trans (before_behind here c) (ih (here.behind c) next)

theorem advanceByFeed_append (front rest : List Char) (here : Position) :
    advanceByFeed (front ++ rest) (byteLength front) here = front.foldl behind here := by
  induction front generalizing here with
  | nil => cases rest <;> rfl
  | cons c front ih =>
    obtain ⟨bytes, size⟩ := Nat.exists_eq_add_one.2 c.utf8Size_pos
    have left : byteLength front + bytes + 1 - c.utf8Size = byteLength front := by omega
    rw [byteLength_cons, size, show bytes + 1 + byteLength front = byteLength front + bytes + 1 by
      omega, List.cons_append, advanceByFeed, left, ih, List.foldl_cons, behind]

theorem byFeed_append (front rest : List Char) :
    byFeed (front ++ rest) (byteLength front) = front.foldl behind first :=
  advanceByFeed_append front rest first

/-- What comes later in the source has a later position. -/
theorem byFeed_before (earlier : o < o') (here : Boundary source o) (there : Boundary source o') :
    (byFeed source o).before (byFeed source o') = true := by
  obtain ⟨front, c, middle, rest, rfl, rfl, rfl⟩ := here.between there earlier
  rw [byFeed_append, ← List.append_assoc, byFeed_append, List.foldl_append]
  exact before_foldl_behind _ c middle

theorem byFeed_before_iff (here : Boundary source o) (there : Boundary source o') :
    (byFeed source o).before (byFeed source o') = true ↔ o < o' := by
  constructor
  · intro earlier
    apply Nat.lt_of_not_le
    intro notEarlier
    obtain later | same := Nat.lt_or_eq_of_le notEarlier
    · exact before_asymm (byFeed_before later there here) earlier
    · rw [same] at earlier
      exact not_before_self _ earlier
  · exact fun earlier => byFeed_before earlier here there

/-- A position determines its offset. -/
theorem offset_eq_of_byFeed_eq (here : Boundary source o) (there : Boundary source o')
    (same : byFeed source o = byFeed source o') : o = o' := by
  have apart : ¬ o < o' := by
    rw [← byFeed_before_iff here there, same]
    exact not_before_self _
  have apart' : ¬ o' < o := by
    rw [← byFeed_before_iff there here, same]
    exact not_before_self _
  omega

/-! ## The two line ends -/

/-- A carriage return with its line feed ends a line as the line feed alone does. -/
theorem advanceByBreak_pair (text : List Char) (bytes : Nat) (here : Position) :
    advanceByBreak ('\r' :: '\n' :: text) (bytes + 2) here =
      advanceByBreak text bytes ((here.behind '\r').behind '\n') := rfl

theorem advanceByBreak_other {c : Char} {text : List Char} (bytes : Nat) (here : Position)
    (other : ¬ (c = '\r' ∧ text.head? = some '\n')) :
    advanceByBreak (c :: text) (bytes + c.utf8Size) here =
      advanceByBreak text bytes (here.behind c) := by
  obtain ⟨size, eq⟩ := Nat.exists_eq_add_one.2 c.utf8Size_pos
  have left : bytes + size + 1 - c.utf8Size = bytes := by omega
  rw [eq, ← Nat.add_assoc, advanceByBreak, left, behind]
  rintro text' rfl rfl
  exact other ⟨rfl, rfl⟩

theorem advanceByBreak_append (front rest : List Char) (here : Position)
    (whole : ¬ (front.getLast? = some '\r' ∧ rest.head? = some '\n')) :
    advanceByBreak (front ++ rest) (byteLength front) here = front.foldl behind here := by
  match front with
  | [] => cases rest <;> rfl
  | [c] =>
    have other : ¬ (c = '\r' ∧ rest.head? = some '\n') := by simpa using whole
    have one := advanceByBreak_other 0 here other
    rw [Nat.zero_add] at one
    rw [byteLength_cons, byteLength_nil, Nat.add_zero, List.singleton_append, one]
    cases rest <;> rfl
  | c :: d :: front =>
    rw [List.getLast?_cons_cons] at whole
    by_cases pair : c = '\r' ∧ d = '\n'
    · -- Both characters are read at once, and the rest of the front may be empty.
      obtain ⟨rfl, rfl⟩ := pair
      have whole' : ¬ (front.getLast? = some '\r' ∧ rest.head? = some '\n') := by
        cases front with
        | nil => nofun
        | cons next front => rwa [List.getLast?_cons_cons] at whole
      have later := advanceByBreak_append front rest ((here.behind '\r').behind '\n') whole'
      rw [← advanceByBreak_pair] at later
      rw [List.foldl_cons, List.foldl_cons, ← later, byteLength_cons, byteLength_cons,
        ← Nat.add_assoc, Nat.add_comm]
      rfl
    · have other : ¬ (c = '\r' ∧ (d :: front ++ rest).head? = some '\n') := by simpa using pair
      have later := advanceByBreak_append (d :: front) rest (here.behind c) whole
      rw [List.foldl_cons, ← later, ← advanceByBreak_other _ here other, byteLength_cons c,
        Nat.add_comm]
      rfl

/-- Except between a carriage return and its line feed, the conventions agree. -/
theorem byBreak_eq_byFeed (front rest : List Char)
    (whole : ¬ (front.getLast? = some '\r' ∧ rest.head? = some '\n')) :
    byBreak (front ++ rest) (byteLength front) = byFeed (front ++ rest) (byteLength front) := by
  rw [byFeed_append]
  exact advanceByBreak_append front rest first whole

end Position

end ScriptEngine
