/-!
# White space

The characters with the Unicode property White_Space, which is what is trimmed from a text
before it is read as a number or as a setting. Note that it contains the next-line control
U+0085 and not the byte order mark U+FEFF.
-/
namespace ScriptEngine.Text

/-- The property White_Space, as a table of its code points. -/
def isBlank (c : Char) : Bool :=
  let n := c.toNat
  (9 ≤ n && n ≤ 13) || n == 0x20 || n == 0x85 || n == 0xA0 || n == 0x1680 ||
    (0x2000 ≤ n && n ≤ 0x200A) || n == 0x2028 || n == 0x2029 || n == 0x202F ||
    n == 0x205F || n == 0x3000

/-- Removes white space from the end. -/
def trimEnd (chars : List Char) : List Char := (chars.reverse.dropWhile isBlank).reverse

/-- Removes white space from both ends. -/
def trim (chars : List Char) : List Char := trimEnd (chars.dropWhile isBlank)

example : isBlank '\u0085' ∧ ¬ isBlank '\ufeff' := by decide

section

variable {chars front inner tail : List Char}

theorem trimEnd_append (blank : ∀ c ∈ tail, isBlank c = true) :
    trimEnd (chars ++ tail) = trimEnd chars := by
  unfold trimEnd
  rw [List.reverse_append, List.dropWhile_append_of_pos]
  simpa using blank

theorem trimEnd_concat {c : Char} (visible : isBlank c = false) :
    trimEnd (chars ++ [c]) = chars ++ [c] := by
  simp [trimEnd, visible]

/-- Trimming removes nothing but white space from the end. -/
theorem exists_trimEnd (chars : List Char) :
    ∃ tail, chars = trimEnd chars ++ tail ∧ ∀ c ∈ tail, isBlank c = true := by
  refine ⟨(chars.reverse.takeWhile isBlank).reverse, ?_, fun c mem => ?_⟩
  · rw [trimEnd, ← List.reverse_append, List.takeWhile_append_dropWhile, List.reverse_reverse]
  · exact List.all_eq_true.1 List.all_takeWhile c (List.mem_reverse.1 mem)

theorem exists_trim (chars : List Char) :
    ∃ front tail, chars = front ++ trim chars ++ tail ∧ (∀ c ∈ front, isBlank c = true) ∧
      ∀ c ∈ tail, isBlank c = true := by
  obtain ⟨tail, same, blank⟩ := exists_trimEnd (chars.dropWhile isBlank)
  refine ⟨chars.takeWhile isBlank, tail, ?_, fun c mem => ?_, blank⟩
  · rw [List.append_assoc, trim, ← same, List.takeWhile_append_dropWhile]
  · exact List.all_eq_true.1 List.all_takeWhile c mem

/-- Visible text is what remains when the white space around it is trimmed. -/
theorem trim_eq (blank : ∀ c ∈ front, isBlank c = true) (blank' : ∀ c ∈ tail, isBlank c = true)
    (visible : ∀ c ∈ inner, isBlank c = false) : trim (front ++ inner ++ tail) = inner := by
  rw [trim, List.append_assoc, List.dropWhile_append_of_pos blank]
  cases inner with
  | nil =>
    have all : (tail ++ []).dropWhile isBlank = [] := List.dropWhile_append_of_pos blank'
    rw [List.nil_append, ← List.append_nil tail, all]
    rfl
  | cons c more =>
    have first : ((c :: more) ++ tail).dropWhile isBlank = (c :: more) ++ tail := by
      simp [visible c List.mem_cons_self]
    rw [first, trimEnd_append blank']
    obtain ⟨start, last, same⟩ := (List.eq_nil_or_concat (c :: more)).resolve_left nofun
    rw [List.concat_eq_append] at same
    rw [same]
    apply trimEnd_concat
    apply visible
    rw [same]
    simp

end

end ScriptEngine.Text
