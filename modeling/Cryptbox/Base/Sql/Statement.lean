import Mathlib.Data.List.Basic
import Cryptbox.Base.Sql.Lexer

/-!
# Two SQL statements

A `SELECT` of some columns in the order of one of them, from the start or after a value, and an
`UPDATE` of some columns under a conjunction of equations, both over one table. A statement is
what its tokens parse to.

* `Statement.parse_tokens`: the tokens of a statement parse to it.
-/

namespace Cryptbox.Base.Sql

/-! ## Statements -/

/-- An equation between a column, perhaps cast to a BLOB, and a placeholder. -/
structure Comparison where
  column : String
  castBlob : Bool
  param : Nat
  deriving DecidableEq, Repr

inductive Statement where
  | select (columns : List String) (table : String) (after : Option (String × Nat))
      (order : String) (limit : Nat)
  | update (table : String) (assignments : List (String × Nat)) (condition : List Comparison)
  deriving DecidableEq, Repr

/-- The names of columns, up to the first token that is no comma between two of them. -/
def parseColumns : List Token → Option (List String × List Token)
  | .identifier column :: .symbol ',' :: rest => do
    let (columns, rest) ← parseColumns rest
    return (column :: columns, rest)
  | .identifier column :: rest => some ([column], rest)
  | _ => none

def parseAssignments : List Token → Option (List (String × Nat) × List Token)
  | .identifier column :: .symbol '=' :: .param number :: .symbol ',' :: rest => do
    let (assignments, rest) ← parseAssignments rest
    return ((column, number) :: assignments, rest)
  | .identifier column :: .symbol '=' :: .param number :: rest => some ([(column, number)], rest)
  | _ => none

def parseComparison : List Token → Option (Comparison × List Token)
  | .identifier column :: .symbol '=' :: .param number :: rest =>
    some (⟨column, false, number⟩, rest)
  | .word "CAST" :: .symbol '(' :: .identifier column :: .word "AS" :: .word "BLOB" :: .symbol ')'
      :: .symbol '=' :: .param number :: rest => some (⟨column, true, number⟩, rest)
  | _ => none

/-- A conjunction that takes up all the tokens; `fuel` bounds the number of its members. -/
def parseCondition : (fuel : Nat) → List Token → Option (List Comparison)
  | 0, _ => none
  | fuel + 1, tokens => do
    let (comparison, rest) ← parseComparison tokens
    match rest with
    | [] => return [comparison]
    | .word "AND" :: rest => return comparison :: (← parseCondition fuel rest)
    | _ => none

def parse : List Token → Option Statement
  | .word "SELECT" :: rest => do
    let (columns, rest) ← parseColumns rest
    match rest with
    | [.word "FROM", .identifier table, .word "ORDER", .word "BY", .identifier order,
        .word "LIMIT", .param limit] => return .select columns table none order limit
    | [.word "FROM", .identifier table, .word "WHERE", .identifier column, .symbol '>',
        .param after, .word "ORDER", .word "BY", .identifier order, .word "LIMIT",
        .param limit] => return .select columns table (some (column, after)) order limit
    | _ => none
  | .word "UPDATE" :: .identifier table :: .word "SET" :: rest => do
    let (assignments, rest) ← parseAssignments rest
    match rest with
    | .word "WHERE" :: rest =>
      return .update table assignments (← parseCondition rest.length rest)
    | _ => none
  | _ => none

/-! ## Tokens of statements -/

def columnTokens (column : String) : List Token := [.identifier column]

def assignmentTokens (assignment : String × Nat) : List Token :=
  [.identifier assignment.1, .symbol '=', .param assignment.2]

def Comparison.tokens (comparison : Comparison) : List Token :=
  if comparison.castBlob then
    [.word "CAST", .symbol '(', .identifier comparison.column, .word "AS", .word "BLOB",
      .symbol ')', .symbol '=', .param comparison.param]
  else [.identifier comparison.column, .symbol '=', .param comparison.param]

def afterTokens : Option (String × Nat) → List Token
  | none => []
  | some (column, number) => [.word "WHERE", .identifier column, .symbol '>', .param number]

namespace Statement

def tokens : Statement → List Token
  | .select columns table after order limit =>
    .word "SELECT" :: (List.intercalate [.symbol ','] (columns.map columnTokens)
      ++ .word "FROM" :: .identifier table :: (afterTokens after
      ++ [.word "ORDER", .word "BY", .identifier order, .word "LIMIT", .param limit]))
  | .update table assignments condition =>
    .word "UPDATE" :: .identifier table :: .word "SET"
      :: (List.intercalate [.symbol ','] (assignments.map assignmentTokens)
      ++ .word "WHERE" :: List.intercalate [.word "AND"] (condition.map Comparison.tokens))

/-- The numbers of the placeholders, in the order in which they stand in the text. -/
def params : Statement → List Nat
  | .select _ _ after _ limit => (after.map Prod.snd).toList ++ [limit]
  | .update _ assignments condition =>
    assignments.map Prod.snd ++ condition.map Comparison.param

/-- Its lists are not empty. -/
def WellFormed : Statement → Prop
  | .select columns .. => columns ≠ []
  | .update _ assignments condition => assignments ≠ [] ∧ condition ≠ []

end Statement

/-- No token that continues a list. -/
def Stops (rest : List Token) : Prop := ∀ tokens, rest ≠ .symbol ',' :: tokens

theorem parseColumns_tokens {columns : List String} (hColumns : columns ≠ []) {rest : List Token}
    (hRest : Stops rest) :
    parseColumns (List.intercalate [.symbol ','] (columns.map columnTokens) ++ rest)
      = some (columns, rest) := by
  induction columns with
  | nil => exact absurd rfl hColumns
  | cons column columns ih =>
    cases columns with
    | nil =>
      rw [List.map_singleton, List.intercalate_singleton, columnTokens, List.singleton_append,
        parseColumns]
      exact hRest
    | cons next columns =>
      rw [List.map_cons, List.map_cons, List.intercalate_cons_cons, ← List.map_cons, columnTokens]
      simp only [List.cons_append, List.nil_append, parseColumns]
      rw [ih (List.cons_ne_nil _ _)]
      rfl

theorem parseAssignments_tokens {assignments : List (String × Nat)} (hSome : assignments ≠ [])
    {rest : List Token} (hRest : Stops rest) :
    parseAssignments (List.intercalate [.symbol ','] (assignments.map assignmentTokens) ++ rest)
      = some (assignments, rest) := by
  induction assignments with
  | nil => exact absurd rfl hSome
  | cons assignment assignments ih =>
    cases assignments with
    | nil =>
      rw [List.map_singleton, List.intercalate_singleton, assignmentTokens]
      simp only [List.cons_append, List.nil_append]
      rw [parseAssignments]
      exact hRest
    | cons next assignments =>
      rw [List.map_cons, List.map_cons, List.intercalate_cons_cons, ← List.map_cons,
        assignmentTokens]
      simp only [List.cons_append, List.nil_append, parseAssignments]
      rw [ih (List.cons_ne_nil _ _)]
      rfl

theorem parseComparison_tokens (comparison : Comparison) (rest : List Token) :
    parseComparison (comparison.tokens ++ rest) = some (comparison, rest) := by
  obtain ⟨column, castBlob, number⟩ := comparison
  cases castBlob with
  | false => rfl
  | true => rfl

theorem parseCondition_tokens {condition : List Comparison} (hSome : condition ≠ []) {fuel : Nat}
    (hFuel : condition.length ≤ fuel) :
    parseCondition fuel (List.intercalate [.word "AND"] (condition.map Comparison.tokens))
      = some condition := by
  induction condition generalizing fuel with
  | nil => exact absurd rfl hSome
  | cons comparison condition ih =>
    cases fuel with
    | zero => cases hFuel
    | succ fuel =>
      have hFuel : condition.length ≤ fuel := Nat.le_of_succ_le_succ hFuel
      cases condition with
      | nil =>
        have hParse := parseComparison_tokens comparison []
        rw [List.append_nil] at hParse
        rw [List.map_singleton, List.intercalate_singleton, parseCondition, hParse]
        rfl
      | cons next condition =>
        rw [List.map_cons, List.map_cons, List.intercalate_cons_cons, ← List.map_cons,
          List.append_assoc, parseCondition, parseComparison_tokens]
        simp only [List.cons_append, List.nil_append, Option.bind_eq_bind, Option.bind_some]
        rw [ih (List.cons_ne_nil _ _) hFuel]
        rfl

/-- There are at least as many tokens as members. -/
theorem length_le_condition (condition : List Comparison) :
    condition.length
      ≤ (List.intercalate [.word "AND"] (condition.map Comparison.tokens)).length := by
  induction condition with
  | nil => exact Nat.zero_le _
  | cons comparison condition ih =>
    have hPos : 0 < comparison.tokens.length := by
      unfold Comparison.tokens
      split <;> exact Nat.succ_pos _
    cases condition with
    | nil =>
      rw [List.map_singleton, List.intercalate_singleton]
      exact hPos
    | cons next condition =>
      rw [List.map_cons, List.map_cons, List.intercalate_cons_cons, ← List.map_cons,
        List.length_append, List.length_append, List.length_cons]
      omega

/-- **The tokens of a statement parse to it.** -/
theorem Statement.parse_tokens {statement : Statement} (h : statement.WellFormed) :
    parse statement.tokens = some statement := by
  cases statement with
  | select columns table after order limit =>
    rw [tokens, parse, parseColumns_tokens h]
    · cases after with
      | none => rfl
      | some after => rfl
    · intro rest hRest
      cases hRest
  | update table assignments condition =>
    obtain ⟨hAssignments, hCondition⟩ := h
    rw [tokens, parse, parseAssignments_tokens hAssignments]
    · simp only [Option.bind_eq_bind, Option.bind_some]
      rw [parseCondition_tokens hCondition (length_le_condition condition)]
      rfl
    · intro rest hRest
      cases hRest

/-! ## Placeholders -/

def Token.number? : Token → Option Nat
  | .param number => some number
  | _ => none

/-- The numbers of the placeholders of a text, in the order of the text. -/
def placeholders (text : String) : Option (List Nat) :=
  (lex text).map fun tokens => tokens.filterMap Token.number?

/-- Separators are no placeholders. -/
theorem numbers_intercalate {separator : Token} (hSeparator : separator.number? = none)
    (items : List (List Token)) :
    (List.intercalate [separator] items).filterMap Token.number?
      = items.flatMap fun item => item.filterMap Token.number? := by
  induction items with
  | nil => rfl
  | cons item items ih =>
    cases items with
    | nil => simp
    | cons next items =>
      rw [List.intercalate_cons_cons, List.filterMap_append, List.filterMap_append, ih,
        List.filterMap_cons_none hSeparator, List.filterMap_nil, List.append_nil,
        ← List.flatMap_cons]

theorem Comparison.numbers (comparison : Comparison) :
    comparison.tokens.filterMap Token.number? = [comparison.param] := by
  unfold tokens
  split
  · rfl
  · rfl

/-- The placeholders of a statement stand in its text in their order. -/
theorem Statement.numbers (statement : Statement) :
    statement.tokens.filterMap Token.number? = statement.params := by
  cases statement with
  | select columns table after order limit =>
    have hColumns : (columns.map columnTokens).flatMap (fun item => item.filterMap Token.number?)
        = [] := by
      rw [List.flatMap_map]
      exact List.flatMap_eq_nil_iff.mpr fun _ _ => rfl
    have hKeyword : (Token.word "SELECT").number? = none := rfl
    rw [tokens, List.filterMap_cons_none hKeyword, List.filterMap_append,
      numbers_intercalate rfl, hColumns]
    cases after with
    | none => rfl
    | some after => rfl
  | update table assignments condition =>
    have hAssignments : (assignments.map assignmentTokens).flatMap
        (fun item => item.filterMap Token.number?) = assignments.map Prod.snd := by
      rw [List.flatMap_map, ← List.flatMap_singleton' (assignments.map Prod.snd), List.flatMap_map]
      rfl
    have hCondition : (condition.map Comparison.tokens).flatMap
        (fun item => item.filterMap Token.number?) = condition.map Comparison.param := by
      rw [List.flatMap_map, ← List.flatMap_singleton' (condition.map Comparison.param),
        List.flatMap_map]
      simp only [Comparison.numbers]
    have hSplit : (Statement.update table assignments condition).tokens
        = [.word "UPDATE", .identifier table, .word "SET"]
          ++ (List.intercalate [.symbol ','] (assignments.map assignmentTokens)
          ++ ([.word "WHERE"]
            ++ List.intercalate [.word "AND"] (condition.map Comparison.tokens))) :=
      rfl
    rw [hSplit, List.filterMap_append, List.filterMap_append, List.filterMap_append,
      numbers_intercalate rfl, numbers_intercalate rfl, hAssignments, hCondition]
    rfl

theorem placeholders_tokens {text : String} {statement : Statement}
    (h : lex text = some statement.tokens) : placeholders text = some statement.params := by
  rw [placeholders, h, Option.map_some, statement.numbers]

end Cryptbox.Base.Sql
