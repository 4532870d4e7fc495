import Mathlib.Tactic.Common
import Mathlib.Data.List.Dedup

/-!
# Lib.Sql

Predicates of a small SQL: columns, numbered parameters, `LIKE`, comparisons, `EXISTS` over joined
tables, `IN`. A table is a list of rows, a row gives each column a value. A comparison with `NULL` is not
true; nothing here negates a comparison, so two truth values are enough.

A statement is text with placeholders `?1`, `?2`, … and a list of values. `bind` puts the values in the
place of the placeholders.

* `eval_bind` : a predicate means what its bound form means.
* `Template` : a predicate with one hole; `Template.bind_param` fills the hole's placeholder.
-/

namespace Ratatoskr.Lib.Sql

inductive Value where
  | null
  | int (i : Int)
  | text (s : String)
  deriving DecidableEq

abbrev Row := String → Value
abbrev Db := String → List Row

abbrev Env := String → Row

inductive Expr where
  | col (table column : String)
  | param (index : Nat)
  | lit (value : Value)
  | concat (a b : Expr)
  | lower (a : Expr)

inductive Pred where
  | eq (a b : Expr)
  | lt (a b : Expr)
  | gt (a b : Expr)
  | like (a b : Expr)
  | isNotNull (a : Expr)
  | inList (a : Expr) (es : List Expr)
  | and (p q : Pred)
  | or (p q : Pred)
  | exists (tables : List (String × String)) (p : Pred)
  | notExists (tables : List (String × String)) (p : Pred)
  | inSelect (a : Expr) (e : Expr) (tables : List (String × String)) (p : Pred)

/-- `%` matches any run of characters, `_` any one; ASCII letters match in either case. -/
def likeChars : List Char → List Char → Bool
  | [], cs => cs.isEmpty
  | p :: pattern, cs =>
    if p = '%' then cs.tails.any (fun rest => likeChars pattern rest)
    else
      match cs with
      | [] => false
      | c :: cs => (p = '_' || p.toLower = c.toLower) && likeChars pattern cs

def evalExpr (params : List Value) (env : Env) : Expr → Value
  | .col table column => env table column
  | .param index => (params[index - 1]?).getD .null
  | .lit value => value
  | .concat a b =>
    match evalExpr params env a, evalExpr params env b with
    | .text s, .text t => .text (s ++ t)
    | _, _ => .null
  | .lower a =>
    match evalExpr params env a with
    | .text s => .text (String.ofList (s.toList.map Char.toLower))
    | v => v

def Value.eqTrue (a b : Value) : Bool := a ≠ .null && a = b

def Value.ltTrue : Value → Value → Bool
  | .int a, .int b => a < b
  | _, _ => false

/-- The order of `ORDER BY`: `NULL`, then numbers, then text. -/
def Value.le : Value → Value → Bool
  | .null, _ => true
  | .int _, .null => false
  | .int a, .int b => a ≤ b
  | .int _, .text _ => true
  | .text _, .null => false
  | .text _, .int _ => false
  | .text s, .text t => s ≤ t

def Value.likeTrue : Value → Value → Bool
  | .text s, .text pattern => likeChars pattern.toList s.toList
  | _, _ => false

def anyRow (db : Db) : List (String × String) → (Env → Bool) → Env → Bool
  | [], f, env => f env
  | (table, name) :: tables, f, env =>
    (db table).any (fun row => anyRow db tables f (Function.update env name row))

def eval (db : Db) (params : List Value) : Pred → Env → Bool
  | .eq a b, env => (evalExpr params env a).eqTrue (evalExpr params env b)
  | .lt a b, env => (evalExpr params env a).ltTrue (evalExpr params env b)
  | .gt a b, env => (evalExpr params env b).ltTrue (evalExpr params env a)
  | .like a b, env => (evalExpr params env a).likeTrue (evalExpr params env b)
  | .isNotNull a, env => evalExpr params env a ≠ .null
  | .inList a es, env => es.any (fun e => (evalExpr params env a).eqTrue (evalExpr params env e))
  | .and p q, env => eval db params p env && eval db params q env
  | .or p q, env => eval db params p env || eval db params q env
  | .exists tables p, env => anyRow db tables (eval db params p) env
  | .notExists tables p, env => !anyRow db tables (eval db params p) env
  | .inSelect a e tables p, env =>
    let v := evalExpr params env a
    anyRow db tables (fun env => v.eqTrue (evalExpr params env e) && eval db params p env) env

def Expr.placeholders : Expr → List Nat
  | .col _ _ => []
  | .param index => [index]
  | .lit _ => []
  | .concat a b => a.placeholders ++ b.placeholders
  | .lower a => a.placeholders

def Pred.placeholders : Pred → List Nat
  | .eq a b => a.placeholders ++ b.placeholders
  | .lt a b => a.placeholders ++ b.placeholders
  | .gt a b => a.placeholders ++ b.placeholders
  | .like a b => a.placeholders ++ b.placeholders
  | .isNotNull a => a.placeholders
  | .inList a es => a.placeholders ++ es.flatMap Expr.placeholders
  | .and p q => p.placeholders ++ q.placeholders
  | .or p q => p.placeholders ++ q.placeholders
  | .exists _ p => p.placeholders
  | .notExists _ p => p.placeholders
  | .inSelect a e _ p => a.placeholders ++ e.placeholders ++ p.placeholders

/-- `?index` is the value at that place, counted from one. -/
def Expr.bind (params : List Value) : Expr → Expr
  | .col table column => .col table column
  | .param index => .lit ((params[index - 1]?).getD .null)
  | .lit value => .lit value
  | .concat a b => .concat (a.bind params) (b.bind params)
  | .lower a => .lower (a.bind params)

def Pred.bind (params : List Value) : Pred → Pred
  | .eq a b => .eq (a.bind params) (b.bind params)
  | .lt a b => .lt (a.bind params) (b.bind params)
  | .gt a b => .gt (a.bind params) (b.bind params)
  | .like a b => .like (a.bind params) (b.bind params)
  | .isNotNull a => .isNotNull (a.bind params)
  | .inList a es => .inList (a.bind params) (es.map (Expr.bind params))
  | .and p q => .and (p.bind params) (q.bind params)
  | .or p q => .or (p.bind params) (q.bind params)
  | .exists tables p => .exists tables (p.bind params)
  | .notExists tables p => .notExists tables (p.bind params)
  | .inSelect a e tables p => .inSelect (a.bind params) (e.bind params) tables (p.bind params)

section Bind

variable (params : List Value)

theorem evalExpr_bind (env : Env) (e : Expr) : evalExpr [] env (e.bind params) = evalExpr params env e := by
  induction e with
  | col table column => rfl
  | param index => rfl
  | lit value => rfl
  | concat a b iha ihb => simp [Expr.bind, evalExpr, iha, ihb]
  | lower a ih => simp [Expr.bind, evalExpr, ih]

theorem eval_bind (db : Db) (p : Pred) (env : Env) : eval db [] (p.bind params) env = eval db params p env := by
  induction p generalizing env with
  | eq a b => simp [Pred.bind, eval, evalExpr_bind]
  | lt a b => simp [Pred.bind, eval, evalExpr_bind]
  | gt a b => simp [Pred.bind, eval, evalExpr_bind]
  | like a b => simp [Pred.bind, eval, evalExpr_bind]
  | isNotNull a => simp [Pred.bind, eval, evalExpr_bind]
  | inList a es => simp only [Pred.bind, eval, evalExpr_bind, List.any_map, Function.comp_def]
  | and p q ihp ihq => simp [Pred.bind, eval, ihp, ihq]
  | or p q ihp ihq => simp [Pred.bind, eval, ihp, ihq]
  | «exists» tables p ih =>
    have hp : eval db [] (p.bind params) = eval db params p := funext ih
    simp [Pred.bind, eval, hp]
  | notExists tables p ih =>
    have hp : eval db [] (p.bind params) = eval db params p := funext ih
    simp [Pred.bind, eval, hp]
  | inSelect a e tables p ih => simp [Pred.bind, eval, evalExpr_bind, ih]

theorem bind_param_last (v : Value) (rest : List Value) :
    (Expr.param (params.length + 1)).bind (params ++ [v] ++ rest) = .lit v := by
  simp only [Expr.bind, Nat.add_sub_cancel]
  rw [List.append_assoc, List.getElem?_append_right (Nat.le_refl _), Nat.sub_self]
  rfl

end Bind

/-- A predicate with one hole and no placeholder of its own. -/
structure Template (f : Expr → Pred) : Prop where
  bind : ∀ params e, (f e).bind params = f (e.bind params)
  placeholders : ∀ e i, i ∈ (f e).placeholders ↔ i ∈ e.placeholders

/-! ## Lists of predicates -/

/-- `p OR q OR …`; the text for no part is not SQL and is not built. -/
def joinOr : List Pred → Pred
  | [] => .eq (.lit (.int 0)) (.lit (.int 1))
  | [p] => p
  | p :: q :: ps => .or p (joinOr (q :: ps))

theorem bind_joinOr (params : List Value) (ps : List Pred) :
    (joinOr ps).bind params = joinOr (ps.map (Pred.bind params)) := by
  induction ps with
  | nil => rfl
  | cons p ps ih =>
    cases ps with
    | nil => rfl
    | cons q ps => exact congrArg (Pred.or (p.bind params)) ih

theorem placeholders_joinOr (ps : List Pred) (i : Nat) :
    i ∈ (joinOr ps).placeholders ↔ ∃ p ∈ ps, i ∈ p.placeholders := by
  induction ps with
  | nil => simp [joinOr, Pred.placeholders, Expr.placeholders]
  | cons p ps ih =>
    cases ps with
    | nil => simp [joinOr]
    | cons q ps =>
      rw [joinOr, Pred.placeholders, List.mem_append, ih]
      simp

theorem eval_joinOr (db : Db) (params : List Value) (ps : List Pred) (env : Env) :
    eval db params (joinOr ps) env = true ↔ ∃ p ∈ ps, eval db params p env = true := by
  induction ps with
  | nil => simp [joinOr, eval, evalExpr, Value.eqTrue]
  | cons p ps ih =>
    cases ps with
    | nil => simp [joinOr]
    | cons q ps =>
      rw [joinOr, eval, Bool.or_eq_true, ih]
      simp

end Ratatoskr.Lib.Sql
