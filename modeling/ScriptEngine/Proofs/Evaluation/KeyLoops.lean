import ScriptEngine.Engine.Engine
import ScriptEngine.Proofs.Evaluation.Endings
import ScriptEngine.Proofs.Store.Chains

/-!
# Loops over keys

A loop over the keys of an object takes the keys once, at its start, and asks again before each
round. Main result: whatever its body does, the keys that its rounds get are some of the ones at the
start, in that order and each once; every one of them is there and enumerable when its round starts;
and a key that is so all of the time has its round unless the loop is left (`forIn_visits`).

`KeyRounds` says which rounds a loop has. It describes every run, and no run in two ways
(`keyRounds_run`, `KeyRounds.unique`).
-/
namespace ScriptEngine

/-! ### All of the time -/

/-- Something that holds of the stores of all moments holds of the last store. -/
theorem Leads.last {P : Store → Prop} {s t : Store} {moments : List Moment}
    (leads : Leads s moments t) (first : P s)
    (each : ∀ moment ∈ moments, P moment.machine.store) : P t := by
  induction moments generalizing s with
  | nil => exact leads ▸ first
  | cons moment rest ih =>
    obtain ⟨now, later⟩ := List.forall_mem_cons.1 each
    exact ih leads.2 now later

/-- Something holds of the store where an evaluation starts, and at all of its moments. -/
def Evaluation.Throughout {α : Type} (x : Evaluation α) (P : Store → Prop) (m : Machine) : Prop :=
  P m.store ∧ ∀ moment ∈ x.moments m, P moment.machine.store

theorem Evaluation.Throughout.last {α : Type} {x : Evaluation α} {P : Store → Prop}
    {m after : Machine} {outcome : Outcome α} (throughout : x.Throughout P m)
    (run : x.run m = (outcome, after)) : P after.store := by
  have leads := (x.passage m).leads
  rw [run] at leads
  exact leads.last throughout.1 throughout.2

namespace Evaluate

open Evaluation Operation

/-! ### Rounds -/

/-- Whether the loop goes on after a round that ended in some way. -/
def goesOn (labels : List String) : Outcome Ending → Bool
  | .value ending => ending.letsLoopContinue labels
  | .raised _ | .exhausted => false

/-- How a loop ends that does not go on after a round. -/
def leaving (last : Value) : Outcome Ending → Outcome Ending
  | .value ending => .value (ending.updateEmpty (some last))
  | outcome => outcome

section

variable (labels : List String) (object : ObjectId) (visit : Value → Evaluation Ending)

/-- The rounds of a loop over some keys, each with its key and the machine that it starts from, and
how the loop ends. -/
inductive KeyRounds :
    List String → Value → Machine → List (String × Machine) → Outcome Ending × Machine → Prop where
  | done (last : Value) (m : Machine) :
    KeyRounds [] last m [] (.value (.normal (some last)), m)
  /-- A key that has meanwhile gone, or does not show any more, has no round. -/
  | gone {key : String} {keys : List String} {last : Value} {m : Machine}
    {rounds : List (String × Machine)} {result : Outcome Ending × Machine}
    (absent : m.store.isEnumerable object key = false)
    (others : KeyRounds keys last m rounds result) :
    KeyRounds (key :: keys) last m rounds result
  | round {key : String} {keys : List String} {last : Value} {m after : Machine}
    {rounds : List (String × Machine)} {result : Outcome Ending × Machine} {ending : Ending}
    (there : m.store.isEnumerable object key = true)
    (run : (visit (.string key)).run m = (.value ending, after))
    (onward : ending.letsLoopContinue labels = true)
    (others : KeyRounds keys (ending.value?.getD last) after rounds result) :
    KeyRounds (key :: keys) last m ((key, m) :: rounds) result
  /-- A round after which the loop does not go on is the last one. -/
  | left {key : String} {keys : List String} {last : Value} {m after : Machine}
    {outcome : Outcome Ending} (there : m.store.isEnumerable object key = true)
    (run : (visit (.string key)).run m = (outcome, after))
    (abrupt : goesOn labels outcome = false) :
    KeyRounds (key :: keys) last m [(key, m)] (leaving last outcome, after)

end

variable {labels : List String} {object : ObjectId} {visit : Value → Evaluation Ending}
  {key : String} {keys : List String} {last : Value} {m after : Machine} {ending : Ending}

theorem visitKeys_gone (absent : m.store.isEnumerable object key = false) :
    (visitKeys labels object visit (key :: keys) last).run m =
        (visitKeys labels object visit keys last).run m ∧
      (visitKeys labels object visit (key :: keys) last).moments m =
        (visitKeys labels object visit keys last).moments m := by
  rw [visitKeys, moments_bind (run_ask _ m), run_bind, run_ask, andThen_value, absent]
  exact ⟨rfl, rfl⟩

theorem visitKeys_round (there : m.store.isEnumerable object key = true)
    (run : (visit (.string key)).run m = (.value ending, after))
    (onward : ending.letsLoopContinue labels = true) :
    (visitKeys labels object visit (key :: keys) last).run m =
        (visitKeys labels object visit keys (ending.value?.getD last)).run after ∧
      (visitKeys labels object visit (key :: keys) last).moments m =
        (visit (.string key)).moments m ++
          (visitKeys labels object visit keys (ending.value?.getD last)).moments after := by
  rw [visitKeys, moments_bind (run_ask _ m), run_bind, run_ask, andThen_value, there, if_pos rfl,
    moments_bind run, run_bind, run, andThen_value, if_pos onward]
  exact ⟨rfl, rfl⟩

theorem visitKeys_left {outcome : Outcome Ending}
    (there : m.store.isEnumerable object key = true)
    (run : (visit (.string key)).run m = (outcome, after))
    (abrupt : goesOn labels outcome = false) :
    (visitKeys labels object visit (key :: keys) last).run m = (leaving last outcome, after) := by
  rw [visitKeys, run_bind, run_ask, andThen_value, there, if_pos rfl, run_bind, run]
  cases outcome with
  | value ending =>
    have abrupt : ending.letsLoopContinue labels = false := abrupt
    rw [andThen_value, if_neg (ne_true_of_eq_false abrupt)]
    rfl
  | raised | exhausted => rfl

/-- Every run of a loop has its rounds. -/
theorem keyRounds_run (labels : List String) (object : ObjectId)
    (visit : Value → Evaluation Ending) (keys : List String) (last : Value) (m : Machine) :
    ∃ rounds, KeyRounds labels object visit keys last m rounds
      ((visitKeys labels object visit keys last).run m) := by
  induction keys generalizing last m with
  | nil => exact ⟨[], .done last m⟩
  | cons key keys ih =>
    cases there : m.store.isEnumerable object key with
    | false =>
      obtain ⟨rounds, others⟩ := ih last m
      rw [(visitKeys_gone there).1]
      exact ⟨rounds, .gone there others⟩
    | true =>
      cases run : (visit (.string key)).run m with
      | mk outcome after =>
        cases onward : goesOn labels outcome with
        | false =>
          rw [visitKeys_left there run onward]
          exact ⟨_, .left there run onward⟩
        | true =>
          cases outcome with
          | value ending =>
            obtain ⟨rounds, others⟩ := ih (ending.value?.getD last) after
            rw [(visitKeys_round there run onward).1]
            exact ⟨_, .round there run onward others⟩
          | raised | exhausted => cases onward

namespace KeyRounds

variable {rounds rounds' : List (String × Machine)} {result result' : Outcome Ending × Machine}

/-- The rounds, and how they end, are those of the run and no others. -/
theorem eq_run (all : KeyRounds labels object visit keys last m rounds result) :
    result = (visitKeys labels object visit keys last).run m := by
  induction all with
  | done => rfl
  | gone absent _ ih => rw [ih, (visitKeys_gone absent).1]
  | round there run onward _ ih => rw [ih, (visitKeys_round there run onward).1]
  | left there run abrupt => rw [visitKeys_left there run abrupt]

theorem unique (all : KeyRounds labels object visit keys last m rounds result)
    (all' : KeyRounds labels object visit keys last m rounds' result') : rounds = rounds' := by
  induction all generalizing rounds' with
  | done => cases all'; rfl
  | gone absent _ ih =>
    cases all' with
    | gone _ others => exact ih others
    | round there | left there => rw [absent] at there; cases there
  | round there run onward _ ih =>
    cases all' with
    | gone absent => rw [absent] at there; cases there
    | round _ run' _ others =>
      rw [run] at run'
      cases run'
      rw [ih others]
    | left _ run' abrupt =>
      rw [run] at run'
      cases run'
      rw [goesOn, onward] at abrupt
      cases abrupt
  | left there run abrupt =>
    cases all' with
    | gone absent => rw [absent] at there; cases there
    | round _ run' onward =>
      rw [run] at run'
      cases run'
      rw [goesOn, onward] at abrupt
      cases abrupt
    | left => rfl

/-- The keys with a round are some of the keys of the loop, in their order. -/
theorem sublist (all : KeyRounds labels object visit keys last m rounds result) :
    (rounds.map Prod.fst).Sublist keys := by
  induction all with
  | done => exact .slnil
  | gone _ _ ih => exact .cons _ ih
  | round _ _ _ _ ih => exact .cons_cons _ ih
  | left => exact .cons_cons _ (List.nil_sublist _)

theorem enumerable (all : KeyRounds labels object visit keys last m rounds result) :
    ∀ round ∈ rounds, round.2.store.isEnumerable object round.1 = true := by
  induction all with
  | done => exact nofun
  | gone _ _ ih => exact ih
  | round there _ _ _ ih => exact List.forall_mem_cons.2 ⟨there, ih⟩
  | left there => exact List.forall_mem_singleton.2 there

/-- Each round starts from a store that the one at the start of the loop has become. -/
theorem reaches (all : KeyRounds labels object visit keys last m rounds result) :
    ∀ round ∈ rounds, m.store.Reaches round.2.store := by
  induction all with
  | done => exact nofun
  | gone _ _ ih => exact ih
  | @round key _ _ m after _ _ _ _ run _ _ ih =>
    have first : m.store.Reaches after.store := by
      have steps := (visit (.string key)).steps m
      rwa [run] at steps
    exact List.forall_mem_cons.2 ⟨.refl _, fun round mem => first.trans (ih round mem)⟩
  | left => exact List.forall_mem_singleton.2 (.refl _)

/-- The last round ends in such a way that the loop is left. -/
def LeftEarly (labels : List String) (visit : Value → Evaluation Ending)
    (rounds : List (String × Machine)) (result : Outcome Ending × Machine) : Prop :=
  ∃ earlier key start outcome after last, rounds = earlier ++ [(key, start)] ∧
    (visit (.string key)).run start = (outcome, after) ∧ goesOn labels outcome = false ∧
    result = (leaving last outcome, after)

theorem LeftEarly.cons (early : LeftEarly labels visit rounds result) (round : String × Machine) :
    LeftEarly labels visit (round :: rounds) result := by
  obtain ⟨earlier, key, start, outcome, after, last, rfl, rest⟩ := early
  exact ⟨round :: earlier, key, start, outcome, after, last, rfl, rest⟩

/-- A key that is enumerable all of the time has a round, unless the loop is left. -/
theorem complete (all : KeyRounds labels object visit keys last m rounds result) {key : String}
    (mem : key ∈ keys)
    (lasting : (visitKeys labels object visit keys last).Throughout
      (fun s => s.isEnumerable object key = true) m) :
    key ∈ rounds.map Prod.fst ∨ LeftEarly labels visit rounds result := by
  induction all with
  | done => cases mem
  | gone absent _ ih =>
    rw [Throughout, (visitKeys_gone absent).2] at lasting
    rcases List.mem_cons.1 mem with rfl | mem
    · rw [absent] at lasting
      cases lasting.1
    · exact ih mem lasting
  | round there run onward _ ih =>
    rw [Throughout, (visitKeys_round there run onward).2] at lasting
    rcases List.mem_cons.1 mem with rfl | mem
    · exact .inl List.mem_cons_self
    · refine (ih mem ?_).imp (List.mem_cons_of_mem _) (.cons · _)
      obtain ⟨now, later⟩ := List.forall_mem_append.1 lasting.2
      have round : (visit _).Throughout (·.isEnumerable object key = true) _ := ⟨lasting.1, now⟩
      exact ⟨round.last run, later⟩
  | left there run abrupt => exact .inr ⟨[], _, _, _, _, _, rfl, run, abrupt, rfl⟩

end KeyRounds

/-! ### The whole loop -/

/-- Once the loop has its object, it goes over the keys that the object has then. -/
theorem forInLoop_entered {left : Evaluation Value} {m entry : Machine} {object : ObjectId}
    (entered : (left >>= toObject).run m = (.value object, entry))
    (labels : List String) (visit : Value → Evaluation Ending) :
    (forInLoop labels left visit).run m =
        (visitKeys labels object visit (entry.store.forInKeys object) .undefined).run entry ∧
      ∀ moment ∈ (visitKeys labels object visit (entry.store.forInKeys object)
          .undefined).moments entry, moment ∈ (forInLoop labels left visit).moments m := by
  obtain ⟨value, between, first, second⟩ := bind_eq_value entered
  have present : value.isNullish = false := by
    cases value with
    | undefined | null => cases second
    | boolean | string | number | object => rfl
  rw [forInLoop, run_bind, first, andThen_value, moments_bind first, present,
    if_neg Bool.false_ne_true, run_bind, second, andThen_value, moments_bind second]
  refine ⟨rfl, fun moment mem => ?_⟩
  exact List.mem_append_right _ (List.mem_append_right _ mem)

/--
Once a loop over keys has its object, it goes over the keys that the object has then, whatever its
body does to them. The keys that the rounds get are some of those, in that order and each once, and
each is enumerable on the object when its round starts, be it inherited or not. A key that is
enumerable at the start and at every moment until the loop ends has a round unless the loop is left,
and a key that is not there at the start has none.
-/
theorem forIn_visits {call : Caller} {left : ForTarget} {right : Expression} {m entry : Machine}
    {object : ObjectId}
    (entered : (forInObject left (evaluate call right) >>= toObject).run m =
      (.value object, entry))
    (bound : Nat) (labels : List String) (span : Span) (body : Statement) (scope : Scope) :
    let visit := keyRound call left (execute call bound [] body)
    let keys := entry.store.forInKeys object
    let loop := visitKeys labels object visit keys .undefined
    let whole := execute call bound labels (.forInLoop span left right body scope)
    whole.run m = (loop >>= fun ending => pure (ending.endBreak .undefined)).run entry ∧
      (∀ moment ∈ loop.moments entry, moment ∈ whole.moments m) ∧
      ∃ rounds,
        (∀ rounds' result, KeyRounds labels object visit keys .undefined entry rounds' result ↔
          rounds' = rounds ∧ result = loop.run entry) ∧
        (rounds.map Prod.fst).Nodup ∧ (rounds.map Prod.fst).Sublist keys ∧
        (∀ round ∈ rounds, ∃ p, round.2.store.lookup object round.1 = some p ∧ p.enumerable) ∧
        (∀ key, loop.Throughout (·.isEnumerable object key = true) entry →
          key ∈ rounds.map Prod.fst ∨
            KeyRounds.LeftEarly labels visit rounds (loop.run entry)) ∧
        ∀ key, entry.store.hasProperty object key = false → key ∉ rounds.map Prod.fst := by
  intro visit keys loop whole
  obtain ⟨run, moments⟩ := forInLoop_entered entered labels visit
  obtain ⟨rounds, all⟩ := keyRounds_run labels object visit keys .undefined entry
  have statement := execute_forIn call bound labels span left right body scope
  refine ⟨?_, fun moment mem => ?_, rounds, fun rounds' result => ⟨fun all' => ?_, ?_⟩, ?_,
    all.sublist, fun round mem => ?_, fun key lasting => ?_, fun key absent mem => ?_⟩
  · simp only [whole, statement, run_bind, run, visit, loop, keys]
  · simp only [whole, statement]
    exact List.mem_append_left _ (moments moment mem)
  · exact ⟨all'.unique all, all'.eq_run⟩
  · rintro ⟨rfl, rfl⟩
    exact all
  · exact (entry.store.nodup_forInKeys object).sublist all.sublist
  · have enumerable := all.enumerable round mem
    rw [Store.isEnumerable_eq_lookup, Option.any_eq_true] at enumerable
    exact enumerable
  · exact all.complete ((entry.store.mem_forInKeys_iff object key).2 lasting.1) lasting
  · have enumerable := (entry.store.mem_forInKeys_iff object key).1 (all.sublist.mem mem)
    rw [Store.isEnumerable_eq_lookup, (entry.store.lookup_eq_none_iff object key).2 absent]
      at enumerable
    cases enumerable

end Evaluate

namespace Engine

open Evaluation Evaluate Operation

/-- The first of two keys has a round, and the loop goes on after it, but not to the second key. -/
private def skipsSecond (object : ObjectId) (visit : Value → Evaluation Ending) (m : Machine) :
    Bool :=
  m.store.forInKeys object == ["a", "b"] && m.store.isEnumerable object "a" &&
    match (visit (.string "a")).run m with
    | (.value ending, after) =>
      ending.letsLoopContinue [] && !after.store.isEnumerable object "b"
    | _ => false

/-- A loop over two keys of the global object whose body deletes the second one: the first key has a
round, and the second one has gone by then. -/
theorem forIn_visits_deleted :
    let e := create { builtins := false }
    let global := WellKnown.globalObject
    let m := ((do
      let _ ← define global "a" (.ofProperty (.plain .null))
      define global "b" (.ofProperty (.plain .null))).run e.machine).2
    let s : Span := ⟨0, 0⟩
    let left : ForTarget := .declaration .let ⟨"key", s⟩
    let body : Statement := .expression s (.unary s .delete (.member s (.this s) ⟨"b", s⟩))
    let visit := keyRound e.caller left (execute e.caller loopBound [] body)
    ∃ entry rounds,
      (forInObject left (evaluate e.caller (.this s)) >>= toObject).run m =
        (.value global, entry) ∧
      entry.store.forInKeys global = ["a", "b"] ∧
      KeyRounds [] global visit ["a", "b"] .undefined entry rounds
        ((visitKeys [] global visit ["a", "b"] .undefined).run entry) ∧
      rounds.map Prod.fst = ["a"] := by
  intro e global m s left body visit
  have entered : ∃ entry, (forInObject left (evaluate e.caller (.this s)) >>= toObject).run m =
      (.value global, entry) ∧ skipsSecond global visit entry = true :=
    ⟨_, rfl, by decide +kernel⟩
  obtain ⟨entry, entered, skips⟩ := entered
  simp only [skipsSecond, Bool.and_eq_true, beq_iff_eq] at skips
  obtain ⟨⟨keys, there⟩, onward⟩ := skips
  obtain ⟨-, -, rounds, only, -⟩ :=
    forIn_visits entered loopBound [] s body ⟨false, [], [], [], []⟩
  rw [keys] at only
  refine ⟨entry, rounds, entered, keys, (only _ _).2 ⟨rfl, rfl⟩, ?_⟩
  cases run : (visit (.string "a")).run entry with
  | mk outcome after =>
    rw [run] at onward
    cases outcome with
    | raised | exhausted => cases onward
    | value ending =>
      simp only [Bool.and_eq_true, Bool.not_eq_true'] at onward
      have explicit := (only _ _).1 (.round there run onward.1 (.gone onward.2 (.done _ _)))
      rw [← explicit.1]
      rfl

end Engine

end ScriptEngine
