import Mathlib.Tactic.Common

/-!
# Lib.NameScope

The names of a query and what they resolve to. A `SELECT` names columns of the sources in its own `FROM`
clause; a subquery in an expression also sees the sources of the queries around it. A subquery in `FROM`
does not see the sources beside it, and neither does a common table expression, which stands here where it
is named.

`Select.resolve` gives the result columns or the first name that is not found, from the outside in:
`FROM`, then the result columns, then the clauses.
-/

namespace Ratatoskr.Lib.NameScope

mutual

inductive Select where
  | mk (results : Results) (sources : Sources) (clauses : Exprs)

/-- Result columns: `source.*` or `e AS name`. -/
inductive Results where
  | nil
  | star (source : String) (rest : Results)
  | expr (e : Expr) (name : String) (rest : Results)

inductive Sources where
  | nil
  | table (table name : String) (rest : Sources)
  | derived (query : Select) (name : String) (rest : Sources)

inductive Exprs where
  | nil
  | cons (e : Expr) (rest : Exprs)

/-- A parameter and a literal are `constant`; an operator, a function and a window are `apply`. -/
inductive Expr where
  | column (source : Option String) (name : String)
  | constant
  | apply (args : Exprs)
  | subquery (query : Select)

end

/-- The sources of a `FROM` clause with their columns. -/
abbrev Scope := List (String × List String)

abbrev Schema := String → Option (List String)

def candidates (scope : Scope) (source : Option String) (name : String) : List String :=
  (scope.filter fun s => source.all (· = s.1) && s.2.contains name).map Prod.fst

def written : Option String → String → String
  | some source, name => source ++ "." ++ name
  | none, name => name

def resolveColumn (source : Option String) (name : String) : List Scope → Except String Unit
  | [] => .error ("no such column: " ++ written source name)
  | scope :: outer =>
    match candidates scope source name with
    | [] => resolveColumn source name outer
    | [_] => .ok ()
    | _ => .error ("ambiguous column name: " ++ written source name)

mutual

def Select.resolve (schema : Schema) (outer : List Scope) : Select → Except String (List String)
  | .mk results sources clauses =>
    match sources.resolve schema outer with
    | .error e => .error e
    | .ok scope =>
      match results.resolve schema scope outer with
      | .error e => .error e
      | .ok columns =>
        match clauses.resolve schema (scope :: outer) with
        | .error e => .error e
        | .ok () => .ok columns

def Results.resolve (schema : Schema) (scope : Scope) (outer : List Scope) :
    Results → Except String (List String)
  | .nil => .ok []
  | .star source rest =>
    match scope.lookup source with
    | none => .error ("no such table: " ++ source)
    | some columns => (rest.resolve schema scope outer).map (columns ++ ·)
  | .expr e name rest =>
    match e.resolve schema (scope :: outer) with
    | .error e => .error e
    | .ok () => (rest.resolve schema scope outer).map (name :: ·)

def Sources.resolve (schema : Schema) (outer : List Scope) : Sources → Except String Scope
  | .nil => .ok []
  | .table table name rest =>
    match schema table with
    | none => .error ("no such table: " ++ table)
    | some columns => (rest.resolve schema outer).map ((name, columns) :: ·)
  | .derived query name rest =>
    match query.resolve schema outer with
    | .error e => .error e
    | .ok columns => (rest.resolve schema outer).map ((name, columns) :: ·)

def Exprs.resolve (schema : Schema) (scopes : List Scope) : Exprs → Except String Unit
  | .nil => .ok ()
  | .cons e rest =>
    match e.resolve schema scopes with
    | .error e => .error e
    | .ok () => rest.resolve schema scopes

def Expr.resolve (schema : Schema) (scopes : List Scope) : Expr → Except String Unit
  | .column source name => resolveColumn source name scopes
  | .constant => .ok ()
  | .apply args => args.resolve schema scopes
  | .subquery query => (query.resolve schema scopes).map fun _ => ()

end

/-- The statement is compiled; nothing of it runs if a name is not found. -/
def prepare (schema : Schema) (query : Select) : Except String Unit :=
  (query.resolve schema []).map fun _ => ()

def Exprs.ofList : List Expr → Exprs
  | [] => .nil
  | e :: es => .cons e (Exprs.ofList es)

def op (args : List Expr) : Expr := .apply (Exprs.ofList args)

def Results.ofList : List (Expr × String) → Results
  | [] => .nil
  | (e, name) :: rest => .expr e name (Results.ofList rest)

def Results.names (names : List String) : Results :=
  Results.ofList (names.map fun name => (.column none name, name))

theorem resolveColumn_unbound {source : String} {scopes : List Scope}
    (h : ∀ scope ∈ scopes, ∀ s ∈ scope, s.1 ≠ source) (name : String) :
    resolveColumn (some source) name scopes = .error ("no such column: " ++ written (some source) name) := by
  induction scopes with
  | nil => rfl
  | cons scope outer ih =>
    have hnone : candidates scope (some source) name = [] := by
      rw [candidates, List.map_eq_nil_iff, List.filter_eq_nil_iff]
      intro s hs htrue
      simp only [Option.all_some, Bool.and_eq_true, decide_eq_true_eq] at htrue
      exact h scope List.mem_cons_self s hs htrue.1.symm
    rw [resolveColumn, hnone]
    exact ih fun inner hinner => h inner (List.mem_cons_of_mem _ hinner)

end Ratatoskr.Lib.NameScope
