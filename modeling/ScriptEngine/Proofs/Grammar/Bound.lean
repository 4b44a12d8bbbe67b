import ScriptEngine.Proofs.Grammar.Brackets
import ScriptEngine.Proofs.Grammar.Outcome

/-!
# The bound on the nesting of rules

The matcher stops at a bound, but the texts never make it do so. Between two characters that are
taken, a rule leads only to rules of a smaller rank (`leads_pattern`), and ranks are less than the
height of the grammar. So no reading of a script meets the bound that `Grammar.parse` supplies
(`read_rule_ends`), every pattern matches or fails (`matches_or_fails`), and a script is parsed
exactly if its rule matches (`parse_eq_ok_iff`).
-/
namespace ScriptEngine

section

variable {Rule : Type}

/-- Every rule that may be tried before a character is taken is one of the given rules. -/
def Pattern.leads (known given : Rule → Bool) : Pattern Rule → Bool
  | .one _ | .text _ => true
  | .seq first second =>
    first.leads known given && (first.moves known || second.leads known given)
  | .alt first second => first.leads known given && second.leads known given
  | .many item | .optional item | .ahead item | .notAhead item => item.leads known given
  | .rule name => given name

namespace Grammar

variable {g : Grammar Rule} {depth : Nat} {p item : Pattern Rule} {here : Cursor}

/-- A repetition ends if each of its rounds does, wherever it gets to. -/
theorem read_many_ne_exhausted_of_takes
    (each : ∀ taken there, here.Takes taken there → g.read depth item there ≠ .exhausted) :
    g.read depth (.many item) here ≠ .exhausted := by
  have rounds : ∃ stop nodes, g.Rounds depth item here stop nodes := by
    induction len : here.rest.length using Nat.strongRecOn generalizing here with
    | ind length ih =>
      cases eq : g.read depth item here with
      | exhausted => exact absurd eq (each [] here (.refl here))
      | failed => exact ⟨here, [], .done eq⟩
      | matched middle before =>
        by_cases stays : middle.offset = here.offset
        · exact ⟨here, [], .still eq stays⟩
        · obtain ⟨taken, takes⟩ := read_takes eq
          have some : 0 < taken.length :=
            List.length_pos_iff.2 fun none => stays (takes.stays_iff.2 none)
          have shorter := congrArg List.length takes.rest
          rw [List.length_append] at shorter
          obtain ⟨stop, after, later⟩ := ih middle.rest.length (by omega)
            (fun more there takes' => each (taken ++ more) there (takes.trans takes')) rfl
          exact ⟨stop, before ++ after, .more eq stays later⟩
  obtain ⟨stop, nodes, rounds⟩ := rounds
  rw [read_many_eq_of_rounds rounds]
  nofun

/-- A pattern ends if the rules do at every place that it may get to. -/
theorem read_ends_of_rules
    (rules : ∀ name taken there, here.Takes taken there →
      g.read depth (.rule name) there ≠ .exhausted) :
    g.read depth p here ≠ .exhausted := by
  induction p generalizing here with
  | one | text => exact read_ne_exhausted_of_simple rfl here
  | seq first second ihFirst ihSecond =>
    rw [read_seq]
    cases eq : g.read depth first here with
    | exhausted => exact absurd eq (ihFirst rules)
    | failed => nofun
    | matched middle before =>
      obtain ⟨taken, takes⟩ := read_takes eq
      have ends : g.read depth second middle ≠ .exhausted := ihSecond fun name more there takes' =>
        rules name (taken ++ more) there (takes.trans takes')
      dsimp only [Match.andThen]
      split
      · nofun
      · exact ends
  | alt first second ihFirst ihSecond =>
    rw [read_alt]
    split
    · exact ihSecond rules
    · exact ihFirst rules
  | many item ih =>
    exact read_many_ne_exhausted_of_takes fun taken there takes =>
      ih fun name more there takes' => rules name (taken ++ more) there (takes.trans takes')
  | optional item ih =>
    rw [read_optional]
    split
    · nofun
    · exact ih rules
  | ahead item ih =>
    rw [read_ahead]
    split
    · nofun
    · exact ih rules
  | notAhead item ih =>
    have ends := ih rules
    rw [read_notAhead]
    split
    · nofun
    · nofun
    next met => exact absurd met ends
  | rule name => exact rules name [] here (.refl here)

/-- A pattern ends if the rules that it leads to do at the same place, and all rules do farther
on. -/
theorem read_ends_of_leads {known given : Rule → Bool}
    (closed : ∀ name, known name = true → (g.pattern name).moves known = true)
    (near : ∀ name, given name = true → g.read depth (.rule name) here ≠ .exhausted)
    (far : ∀ name taken there, taken ≠ [] → here.Takes taken there →
      g.read depth (.rule name) there ≠ .exhausted)
    (leads : p.leads known given = true) : g.read depth p here ≠ .exhausted := by
  -- Behind a character that was taken, everything is farther on.
  have behind {q : Pattern Rule} {taken : List Char} {middle : Cursor} (some : taken ≠ [])
      (takes : here.Takes taken middle) : g.read depth q middle ≠ .exhausted :=
    read_ends_of_rules fun name more there takes' =>
      far name (taken ++ more) there (by simp [some]) (takes.trans takes')
  induction p with
  | one | text => exact read_ne_exhausted_of_simple rfl here
  | seq first second ihFirst ihSecond =>
    obtain ⟨leads, later⟩ := Bool.and_eq_true_iff.1 leads
    rw [read_seq]
    cases eq : g.read depth first here with
    | exhausted => exact absurd eq (ihFirst leads)
    | failed => nofun
    | matched middle before =>
      obtain ⟨taken, takes⟩ := read_takes eq
      have ends : g.read depth second middle ≠ .exhausted := by
        by_cases none : taken = []
        · rcases Bool.or_eq_true_iff.1 later with moves | leads
          · exact absurd (takes.stays_iff.2 none) (moves_of_closed closed moves _ _ _ _ eq)
          · subst none
            rw [takes.unique (.refl here)]
            exact ihSecond leads
        · exact behind none takes
      dsimp only [Match.andThen]
      split
      · nofun
      · exact ends
  | alt first second ihFirst ihSecond =>
    obtain ⟨left, right⟩ := Bool.and_eq_true_iff.1 leads
    rw [read_alt]
    split
    · exact ihSecond right
    · exact ihFirst left
  | many item ih =>
    refine read_many_ne_exhausted_of_takes fun taken there takes => ?_
    by_cases none : taken = []
    · subst none
      rw [takes.unique (.refl here)]
      exact ih leads
    · exact behind none takes
  | optional item ih =>
    rw [read_optional]
    split
    · nofun
    · exact ih leads
  | ahead item ih =>
    rw [read_ahead]
    split
    · nofun
    · exact ih leads
  | notAhead item ih =>
    have ends := ih leads
    rw [read_notAhead]
    split
    · nofun
    · nofun
    next met => exact absurd met ends
  | rule name => exact near name leads

end Grammar

end

namespace Script

/-- The rank of a rule: before a character is taken, a rule leads only to rules of a smaller one. -/
def rank : Rule → Nat
  | .dataProperty => 2
  | .primaryExpression => 3
  | .memberExpression => 4
  | .lhsExpression => 5
  | .postfixExpression => 6
  | .unaryExpression => 7
  | .binary .multiplicative => 8
  | .binary .additive => 9
  | .binary .shift => 10
  | .binary .relational => 11
  | .binary .equality => 12
  | .binary .bitwiseAnd => 13
  | .binary .bitwiseXor => 14
  | .binary .bitwiseOr => 15
  | .logicalAnd => 16
  | .logicalOr => 17
  | .conditional => 18
  | .assignment => 19
  | .expression | .arraySlot => 20
  | .expressionStatement | .forInit | .forTest | .forUpdate => 21
  | .functionBody | .script => 22
  | .identifier | .identifierName | .nullLiteral | .booleanLiteral | .numericLiteral
  | .stringLiteral => 0
  | .doubleStringChars | .singleStringChars | .postfixOperator | .prefixOperator | .operator _
  | .assignmentOperator | .lexicalKind | .forKind | .caseTest | .defaultTest => 0
  | _ => 1

theorem rank_lt (name : Rule) : rank name < grammar.height := by
  cases name with
  | binary level => cases level <;> decide
  | operator level => exact (by decide : 0 < grammar.height)
  | _ => decide

theorem moves_pattern (name : Rule) (known : takesSome name = true) :
    (pattern name).moves takesSome = true := by
  cases name with
  | binary level | operator level => cases level <;> rfl
  | arraySlot | functionBody | script | doubleStringChars | singleStringChars => cases known
  | _ => rfl

theorem leads_pattern (name : Rule) :
    (pattern name).leads takesSome (fun next => rank next < rank name) = true := by
  cases name with
  | binary level | operator level => cases level <;> rfl
  | _ => rfl

/-- No reading of a rule meets a bound that allows as many nested rules as there can be. -/
theorem read_rule_ends {name : Rule} {depth : Nat} {here : Cursor}
    (enough : grammar.height * here.rest.length + rank name < depth) :
    grammar.read depth (.rule name) here ≠ .exhausted := by
  induction depth generalizing name here with
  | zero => exact absurd enough (Nat.not_lt_zero _)
  | succ depth ih =>
    have near (next : Rule) (smaller : decide (rank next < rank name) = true) :
        grammar.read depth (.rule next) here ≠ .exhausted := by
      have := of_decide_eq_true smaller
      exact ih (by omega)
    have far (next : Rule) (taken : List Char) (there : Cursor) (some : taken ≠ [])
        (takes : here.Takes taken there) : grammar.read depth (.rule next) there ≠ .exhausted := by
      have shorter := congrArg List.length takes.rest
      have pos := List.length_pos_iff.2 some
      rw [List.length_append] at shorter
      -- One character less is a whole height less, and that is more than any rank.
      have less : grammar.height * (there.rest.length + 1) ≤ grammar.height * here.rest.length :=
        Nat.mul_le_mul_left _ (by omega)
      rw [Nat.mul_succ] at less
      have := rank_lt next
      exact ih (by omega)
    have ends : grammar.read depth (pattern name) here ≠ .exhausted :=
      Grammar.read_ends_of_leads moves_pattern near far (leads_pattern name)
    rw [Grammar.read_rule_succ]
    split
    · nofun
    · exact ends

/-- Every pattern over the rules of scripts matches or fails, wherever it is tried. -/
theorem matches_or_fails (p : Part) (here : Cursor) :
    (∃ stop nodes, grammar.Matches p here stop nodes) ∨ grammar.Fails p here := by
  have ends : grammar.read (grammar.height * (here.rest.length + 1)) p here ≠ .exhausted := by
    refine Grammar.read_ends_of_rules fun name taken there takes => read_rule_ends ?_
    have shorter := congrArg List.length takes.rest
    rw [List.length_append] at shorter
    have less : grammar.height * there.rest.length ≤ grammar.height * here.rest.length :=
      Nat.mul_le_mul_left _ (by omega)
    rw [Nat.mul_succ]
    have := rank_lt name
    omega
  cases eq : grammar.read (grammar.height * (here.rest.length + 1)) p here with
  | exhausted => exact absurd eq ends
  | failed => exact .inr ⟨_, eq⟩
  | matched stop nodes => exact .inl ⟨stop, nodes, _, eq⟩

/-- A rule is parsed exactly if it matches: the bound on the nesting of rules is never the reason
that it is not. -/
theorem parse_rule_eq_ok_iff (name : Rule) (source : List Char) (node : Node Rule) :
    grammar.parse name source = .ok node ↔
      ∃ stop, grammar.Matches (.rule name) ⟨source, 0⟩ stop [node] := by
  constructor
  · intro parsed
    obtain ⟨stop, found⟩ := Grammar.read_of_parse parsed
    exact ⟨stop, _, found⟩
  · rintro ⟨stop, depth, found⟩
    have ends : grammar.read (grammar.depthBound source) (.rule name) ⟨source, 0⟩ ≠ .exhausted := by
      refine read_rule_ends ?_
      have := rank_lt name
      show grammar.height * source.length + _ < grammar.height * (source.length + 1)
      rw [Nat.mul_succ]
      omega
    -- Both readings have ended, so they have ended in the same way.
    have same : grammar.read (grammar.depthBound source) (.rule name) ⟨source, 0⟩ =
        .matched stop [node] := by
      have larger := Grammar.read_of_le (Nat.le_max_left (grammar.depthBound source) depth) ends
      rw [← larger, Grammar.read_of_le (Nat.le_max_right ..) (found ▸ nofun), found]
    unfold Grammar.parse
    have result : (grammar.matchRule (grammar.depthBound source) name ⟨source, 0⟩ 0).1 =
        .matched stop [node] := same
    rcases eq : grammar.matchRule (grammar.depthBound source) name ⟨source, 0⟩ 0 with ⟨found, reach⟩
    rw [eq] at result
    cases result
    rfl

/-- A script is parsed exactly if its rule matches. -/
theorem parse_eq_ok_iff (source : List Char) (node : Node Rule) :
    parse source = .ok node ↔ ∃ stop, grammar.Matches (.rule .script) ⟨source, 0⟩ stop [node] :=
  parse_rule_eq_ok_iff .script source node

end Script

end ScriptEngine
